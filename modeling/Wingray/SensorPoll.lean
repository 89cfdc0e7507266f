import Mathlib.Tactic

/-!
# The poll loop over the sensor drivers

`pollEvents` asks every ready driver for events and polls again while there is
room. The outcomes of `poll` and of the drivers' `readEvents` are the input;
the record of the asks is what the loop did with the caller's buffer.
-/

set_option autoImplicit false

namespace Wingray.SensorPoll

variable {ε : Type*}

inductive Driver
  | acceleration | light | akm | gyro
  deriving DecidableEq

def drivers : List Driver := [.acceleration, .light, .akm, .gyro]

/-- The state of `sensors_poll_context_t` that the loop reads: the `POLLIN`
bits of `mPollFds` and `LightSensor::mHasPendingEvent`. -/
structure PollContext where
  revents : Driver → Bool
  wake : Bool
  mHasPendingEvent : Bool

def PollContext.hasPendingEvents (s : PollContext) : Driver → Bool
  | .light => s.mHasPendingEvent
  | _ => false

/-- What one `readEvents` call does: its return value and the events it stores
from the given position on. -/
structure Reply (ε : Type*) where
  nb : ℤ
  events : List ε

inductive PollOutcome
  | failed (errno : ℕ)
  | ready (n : ℕ) (revents : Driver → Bool) (wake : Bool)

structure Ask (ε : Type*) where
  sensor : Driver
  data : ℤ
  count : ℤ
  reply : Reply ε

structure Frame (ε : Type*) where
  context : PollContext
  buffer : ℤ → ε
  data : ℤ
  count : ℤ
  nbEvents : ℤ
  asks : List (Ask ε)
  timeouts : List ℤ

def storeEvents (buffer : ℤ → ε) (data : ℤ) (events : List ε) : ℤ → ε :=
  fun j => if data ≤ j then events.getD (j-data).toNat (buffer j) else buffer j

def readEvents (f : Frame ε) (i : Driver) (reply : Reply ε) : Frame ε :=
  { f with
    context := { f.context with
      mHasPendingEvent := f.context.mHasPendingEvent && !(i = .light && 1 ≤ f.count) }
    buffer := storeEvents f.buffer f.data reply.events
    asks := f.asks ++ [⟨i, f.data, f.count, reply⟩] }

def visit (f : Frame ε) (i : Driver) (reply : Reply ε) : Frame ε :=
  let g := readEvents f i reply
  { g with
    context := { g.context with
      revents := fun k => if k = i ∧ reply.nb < f.count then false else g.context.revents k }
    count := g.count-reply.nb
    nbEvents := g.nbEvents+reply.nb
    data := g.data+reply.nb }

inductive Scan (ε : Type*)
  | starved (f : Frame ε)
  | finished (f : Frame ε) (replies : List (Reply ε))

def Scan.frame : Scan ε → Frame ε
  | .starved f => f
  | .finished f _ => f

def scan : List Driver → Frame ε → List (Reply ε) → Scan ε
  | [], f, replies => .finished f replies
  | i::is, f, replies =>
    if f.count = 0 then .finished f replies
    else if f.context.revents i || f.context.hasPendingEvents i then
      match replies with
      | [] => .starved f
      | reply::rest => scan is (visit f i reply) rest
    else scan is f replies

/-- How far the call is: still waiting for an outcome, ended by a failed
`poll`, or returned with the number it counted. -/
inductive End
  | running
  | pollFailed (errno : ℕ)
  | returned (nbEvents : ℤ)

def End.result : End → Option ℤ
  | .running => none
  | .pollFailed errno => some (-errno)
  | .returned nbEvents => some nbEvents

def awaited (f : Frame ε) : Frame ε :=
  { f with timeouts := f.timeouts ++ [if f.nbEvents ≠ 0 then 0 else -1] }

def polled (f : Frame ε) (revents : Driver → Bool) (wake : Bool) : Frame ε :=
  { f with context := { f.context with
      revents := revents
      wake := if wake then false else wake } }

def pollLoop : List PollOutcome → Frame ε → List (Reply ε) → End × Frame ε
  | polls, f, replies =>
    match scan drivers f replies with
    | .starved f => (.running, f)
    | .finished f replies =>
      if f.count = 0 then (.returned f.nbEvents, f)
      else
        match polls with
        | [] => (.running, awaited f)
        | .failed errno :: _ => (.pollFailed errno, awaited f)
        | .ready n revents wake :: rest =>
          if n = 0 then (.returned f.nbEvents, polled (awaited f) revents wake)
          else pollLoop rest (polled (awaited f) revents wake) replies

def pollEvents (context : PollContext) (buffer : ℤ → ε) (count : ℤ) (polls : List PollOutcome)
    (replies : List (Reply ε)) : End × Frame ε :=
  pollLoop polls ⟨context, buffer, 0, count, 0, [], []⟩ replies

/-! ## The account of the asks -/

def total (asks : List (Ask ε)) : ℤ := (asks.map (fun a => a.reply.nb)).sum

def stored (asks : List (Ask ε)) : ℤ := (asks.map (fun a => max a.reply.nb 0)).sum

@[simp] theorem total_append (as bs : List (Ask ε)) : total (as++bs) = total as+total bs := by
  simp [total]

@[simp] theorem stored_append (as bs : List (Ask ε)) :
    stored (as++bs) = stored as+stored bs := by
  simp [stored]

@[simp] theorem total_singleton (a : Ask ε) : total [a] = a.reply.nb := by simp [total]

@[simp] theorem stored_singleton (a : Ask ε) : stored [a] = max a.reply.nb 0 := by simp [stored]

theorem stored_nonneg (asks : List (Ask ε)) : 0 ≤ stored asks := by
  apply List.sum_nonneg
  intro x hx
  obtain ⟨a, _, rfl⟩ := List.mem_map.mp hx
  exact le_max_right _ _

theorem total_le_stored (asks : List (Ask ε)) : total asks ≤ stored asks :=
  List.sum_le_sum (fun a _ => le_max_left a.reply.nb 0)

theorem total_eq_stored (asks : List (Ask ε)) (h : ∀ a ∈ asks, 0 ≤ a.reply.nb) :
    total asks = stored asks := by
  unfold total stored
  congr 1
  apply List.map_congr_left
  intro a ha
  exact (max_eq_left (h a ha)).symm

def Accounted (count : ℤ) (asks : List (Ask ε)) : Prop :=
  ∀ before a after, asks = before ++ a::after →
    a.count = count-total before ∧ a.data = total before

theorem accounted_append {count : ℤ} {asks : List (Ask ε)} {a : Ask ε} (h : Accounted count asks)
    (hc : a.count = count-total asks) (hd : a.data = total asks) :
    Accounted count (asks ++ [a]) := by
  intro before b after he
  rcases List.eq_nil_or_concat' after with rfl | ⟨after, c, rfl⟩
  · obtain ⟨rfl, hb⟩ := List.append_inj' he rfl
    obtain rfl : a = b := by simpa using hb
    exact ⟨hc, hd⟩
  · rw [← List.cons_append, ← List.append_assoc] at he
    obtain ⟨rfl, _⟩ := List.append_inj' he rfl
    exact h before b after rfl

structure Ledger (count : ℤ) (f : Frame ε) : Prop where
  count_eq : f.count = count-total f.asks
  nbEvents_eq : f.nbEvents = total f.asks
  data_eq : f.data = total f.asks
  accounted : Accounted count f.asks

theorem visit_ledger {count : ℤ} {f : Frame ε} (h : Ledger count f) (i : Driver)
    (reply : Reply ε) : Ledger count (visit f i reply) := by
  obtain ⟨hc, hn, hd, ha⟩ := h
  constructor
  case count_eq =>
    simp only [visit, readEvents, total_append, total_singleton]
    omega
  case nbEvents_eq => simp only [visit, readEvents, total_append, total_singleton, hn]
  case data_eq => simp only [visit, readEvents, total_append, total_singleton, hd]
  case accounted => exact accounted_append ha hc hd

theorem scan_keeps {P : Frame ε → Prop} (hvisit : ∀ f i reply, P f → P (visit f i reply))
    {f : Frame ε} (h : P f) (is : List Driver) (replies : List (Reply ε)) :
    P (scan is f replies).frame := by
  induction is generalizing f replies with
  | nil => exact h
  | cons i is ih =>
    unfold scan
    split_ifs with hc hr
    · exact h
    · cases replies with
      | nil => exact h
      | cons reply rest => exact ih (hvisit f i reply h) rest
    · exact ih h replies

theorem pollLoop_keeps {P : Frame ε → Prop} (hvisit : ∀ f i reply, P f → P (visit f i reply))
    (hawaited : ∀ f, P f → P (awaited f))
    (hpolled : ∀ f revents wake, P f → P (polled f revents wake)) {f : Frame ε} (h : P f)
    (polls : List PollOutcome) (replies : List (Reply ε)) : P (pollLoop polls f replies).2 := by
  have hscan : ∀ (g : Frame ε) (replies : List (Reply ε)), P g →
      P (scan drivers g replies).frame :=
    fun g replies hg => scan_keeps hvisit hg drivers replies
  fun_induction pollLoop polls f replies with
  | case1 polls f replies g hg =>
    have hs := hscan f replies h
    rw [hg] at hs
    exact hs
  | case2 polls f replies g rest hg hc =>
    have hs := hscan f replies h
    rw [hg] at hs
    exact hs
  | case3 f replies g rest hg hc =>
    have hs := hscan f replies h
    rw [hg] at hs
    exact hawaited g hs
  | case4 f replies g rest hg hc errno tail =>
    have hs := hscan f replies h
    rw [hg] at hs
    exact hawaited g hs
  | case5 f replies g rest hg hc revents wake tail =>
    have hs := hscan f replies h
    rw [hg] at hs
    exact hpolled _ revents wake (hawaited g hs)
  | case6 f replies g rest hg hc n revents wake tail hn ih =>
    have hs := hscan f replies h
    rw [hg] at hs
    exact ih (hpolled _ revents wake (hawaited g hs))

theorem pollLoop_returned (f : Frame ε) (polls : List PollOutcome) (replies : List (Reply ε))
    (r : ℤ) (h : (pollLoop polls f replies).1 = .returned r) :
    r = (pollLoop polls f replies).2.nbEvents := by
  fun_induction pollLoop polls f replies with
  | case1 => cases h
  | case2 => exact (End.returned.inj h).symm
  | case3 => cases h
  | case4 => cases h
  | case5 => exact (End.returned.inj h).symm
  | case6 f replies g rest hg hc n revents wake tail hn ih => exact ih h

def Settled (count : ℤ) (out : End × Frame ε) : Prop :=
  Ledger count out.2 ∧ ∀ r, out.1 = .returned r → r = total out.2.asks

theorem awaited_ledger {count : ℤ} {f : Frame ε} (h : Ledger count f) : Ledger count (awaited f) :=
  ⟨h.count_eq, h.nbEvents_eq, h.data_eq, h.accounted⟩

theorem polled_ledger {count : ℤ} {f : Frame ε} (h : Ledger count f) (revents : Driver → Bool)
    (wake : Bool) : Ledger count (polled f revents wake) :=
  ⟨h.count_eq, h.nbEvents_eq, h.data_eq, h.accounted⟩

theorem pollLoop_settled {count : ℤ} {f : Frame ε} (h : Ledger count f)
    (polls : List PollOutcome) (replies : List (Reply ε)) :
    Settled count (pollLoop polls f replies) := by
  have hl : Ledger count (pollLoop polls f replies).2 :=
    pollLoop_keeps (P := Ledger count) (fun _ i reply hf => visit_ledger hf i reply)
      (fun _ hf => awaited_ledger hf) (fun _ revents wake hf => polled_ledger hf revents wake)
      h polls replies
  constructor
  · exact hl
  · intro r hr
    exact (pollLoop_returned f polls replies r hr).trans hl.nbEvents_eq

theorem start_ledger (count : ℤ) (context : PollContext) (buffer : ℤ → ε) :
    Ledger count ⟨context, buffer, 0, count, 0, [], []⟩ := by
  have hempty : Accounted count ([] : List (Ask ε)) := by
    intro before a after he
    simp at he
  exact ⟨by simp [total], by simp [total], by simp [total], hempty⟩

theorem pollEvents_settled (context : PollContext) (buffer : ℤ → ε) (count : ℤ)
    (polls : List PollOutcome) (replies : List (Reply ε)) :
    Settled count (pollEvents context buffer count polls replies) :=
  pollLoop_settled (start_ledger count context buffer) polls replies

/-! ## The contract of one call -/

/-- A driver returns a number of events up to the number asked for or a
negative errno, and stores only into the cells it was offered. -/
def Ask.Valid (a : Ask ε) : Prop :=
  (-4095 ≤ a.reply.nb ∧ a.reply.nb < 0 ∧ a.reply.events = []) ∨
    (0 ≤ a.reply.nb ∧ a.reply.nb ≤ a.count ∧ (a.reply.events.length : ℤ) ≤ a.count)

def Reported (count : ℤ) (out : End × Frame ε) (r : ℤ) : Prop :=
  (0 ≤ r ∧ r ≤ count) ∨ (∃ a ∈ out.2.asks, a.reply.nb < 0 ∧ r = a.reply.nb) ∨
    ∃ errno : ℕ, out.1 = .pollFailed errno ∧ r = -errno

structure Contract (count : ℤ) (out : End × Frame ε) : Prop where
  within_space : ∀ before a after, out.2.asks = before ++ a::after →
    a.count ≤ count-stored before
  within_buffer : ∀ a ∈ out.2.asks, a.reply.events ≠ [] →
    0 ≤ a.data ∧ a.data+a.reply.events.length ≤ count
  result : ∀ r, out.1.result = some r → Reported count out r

structure FailsLast (out : End × Frame ε) : Prop where
  last : ∀ before a after, out.2.asks = before ++ a::after → a.reply.nb < 0 → after = []
  covered : ∀ before a r, out.1 = .returned r → out.2.asks = before ++ [a] → a.reply.nb < 0 →
    stored before = 0 ∨ -a.reply.nb ≤ stored before

section Contracts

variable {count : ℤ} {out : End × Frame ε}

theorem earlier_nonneg (h : FailsLast out) {before after : List (Ask ε)} {a : Ask ε}
    (he : out.2.asks = before ++ a::after) : ∀ b ∈ before, 0 ≤ b.reply.nb := by
  intro b hb
  by_contra hn
  obtain ⟨xs, ys, rfl⟩ := List.append_of_mem hb
  have := h.last xs b (ys ++ a::after) (by simp [he]) (by omega)
  simp at this

theorem stored_le_count {asks before after : List (Ask ε)} (ha : Accounted count asks)
    (hc : 0 ≤ count) (hv : ∀ a ∈ asks, a.Valid) (he : asks = before ++ after)
    (hn : ∀ b ∈ before, 0 ≤ b.reply.nb) : stored before ≤ count := by
  rcases List.eq_nil_or_concat' before with rfl | ⟨xs, b, rfl⟩
  · simpa [stored] using hc
  · have hcount := (ha xs b after (by simp [he])).1
    have hnb := hn b (by simp)
    rw [← total_eq_stored _ hn, total_append, total_singleton]
    rcases hv b (by simp [he]) with ⟨_, hneg, _⟩ | ⟨_, hle, _⟩ <;> omega

theorem returned_reported (hl : Ledger count out.2) (hc : 0 ≤ count)
    (hv : ∀ a ∈ out.2.asks, a.Valid) (h : FailsLast out) {r : ℤ} (hret : out.1 = .returned r)
    (htot : r = total out.2.asks) : Reported count out r := by
  rcases List.eq_nil_or_concat' out.2.asks with hnil | ⟨before, a, he⟩
  · simp only [hnil, total, List.map_nil, List.sum_nil] at htot
    exact Or.inl (by omega)
  · obtain ⟨hcount, hdata⟩ := hl.accounted before a [] he
    have heq := total_eq_stored before (earlier_nonneg h he)
    have hpos := stored_nonneg before
    have hmem : a ∈ out.2.asks := by simp [he]
    rw [he, total_append, total_singleton] at htot
    rcases hv a hmem with ⟨_, hneg, _⟩ | ⟨_, hle, _⟩
    · rcases h.covered before a r hret he hneg with hz | hcov
      · exact Or.inr (Or.inl ⟨a, hmem, hneg, by omega⟩)
      · have hfit := stored_le_count hl.accounted hc hv he (earlier_nonneg h he)
        exact Or.inl (by omega)
    · exact Or.inl (by omega)

theorem contract_of_failsLast (hs : Settled count out) (hc : 0 ≤ count)
    (hv : ∀ a ∈ out.2.asks, a.Valid) (h : FailsLast out) : Contract count out := by
  obtain ⟨hl, hr⟩ := hs
  constructor
  case within_space =>
    intro before a after he
    rw [← total_eq_stored before (earlier_nonneg h he)]
    exact (hl.accounted before a after he).1.le
  case within_buffer =>
    intro a ha hne
    obtain ⟨before, after, he⟩ := List.append_of_mem ha
    obtain ⟨hcount, hdata⟩ := hl.accounted before a after he
    have heq := total_eq_stored before (earlier_nonneg h he)
    have hpos := stored_nonneg before
    rcases hv a ha with ⟨_, _, hnil⟩ | ⟨_, _, hlen⟩
    · exact absurd hnil hne
    · omega
  case result =>
    intro r hresult
    cases hend : out.1 with
    | running => simp [hend, End.result] at hresult
    | pollFailed errno =>
      have hrep : -(errno : ℤ) = r := by simpa [hend, End.result] using hresult
      exact Or.inr (Or.inr ⟨errno, hend, hrep.symm⟩)
    | returned nbEvents =>
      obtain rfl : nbEvents = r := by simpa [hend, End.result] using hresult
      exact returned_reported hl hc hv h hend (hr _ hend)

theorem failsLast_of_contract (hs : Settled count out) (h : Contract count out) :
    FailsLast out := by
  obtain ⟨hl, hr⟩ := hs
  have hlast : ∀ before a after, out.2.asks = before ++ a::after → a.reply.nb < 0 →
      after = [] := by
    intro before a after he hneg
    rcases after with _ | ⟨b, after⟩
    · rfl
    · have heb : out.2.asks = (before ++ [a]) ++ b::after := by simp [he]
      have hspace := h.within_space _ b after heb
      have hcount := (hl.accounted _ b after heb).1
      have hle := total_le_stored before
      simp only [total_append, stored_append, total_singleton, stored_singleton] at hspace hcount
      omega
  constructor
  case last => exact hlast
  case covered =>
    intro before a r hret he hneg
    have hnn : ∀ b ∈ before, 0 ≤ b.reply.nb := by
      intro b hb
      by_contra hn
      obtain ⟨xs, ys, rfl⟩ := List.append_of_mem hb
      have := hlast xs b (ys ++ [a]) (by simp [he]) (by omega)
      simp at this
    have htot := hr r hret
    have hresult : out.1.result = some r := by rw [hret]; rfl
    rw [he, total_append, total_singleton, total_eq_stored before hnn] at htot
    rcases h.result r hresult with ⟨hz, _⟩ | ⟨b, hb, hbn, hbr⟩ | ⟨errno, hfailed, _⟩
    · right
      omega
    · left
      rw [he] at hb
      rcases List.mem_append.mp hb with hb | hb
      · have := hnn b hb
        omega
      · obtain rfl := List.mem_singleton.mp hb
        omega
    · cases hret.symm.trans hfailed

end Contracts

/-- One call of `pollEvents` meets its contract exactly when a failing
`readEvents` is the last one of the call and, where the call then returns its
count, no event or at least that errno's number of events came before it. -/
theorem poll_contract_iff (context : PollContext) (buffer : ℤ → ε) (count : ℤ)
    (polls : List PollOutcome) (replies : List (Reply ε)) (hc : 0 ≤ count)
    (hv : ∀ a ∈ (pollEvents context buffer count polls replies).2.asks, a.Valid) :
    Contract count (pollEvents context buffer count polls replies) ↔
      FailsLast (pollEvents context buffer count polls replies) :=
  ⟨failsLast_of_contract (pollEvents_settled context buffer count polls replies),
    contract_of_failsLast (pollEvents_settled context buffer count polls replies) hc hv⟩

def quietContext : PollContext := ⟨fun _ => false, false, false⟩

def accelAndLight : Driver → Bool
  | .acceleration | .light => true
  | _ => false

def servedCall : End × Frame ℕ :=
  pollEvents quietContext (fun _ => 0) 2
    [.ready 2 accelAndLight false, .ready 0 (fun _ => false) false] [⟨1, [7]⟩, ⟨0, []⟩]

theorem poll_contract_served : Contract 2 servedCall ↔ FailsLast servedCall :=
  poll_contract_iff quietContext (fun _ => 0) 2 _ _ (by decide) (by
    intro a ha
    have hasks : servedCall.2.asks =
        [⟨.acceleration, 0, 2, ⟨1, [7]⟩⟩, ⟨.light, 1, 1, ⟨0, []⟩⟩] := rfl
    rw [servedCall] at hasks
    rw [hasks] at ha
    simp only [List.mem_cons, List.not_mem_nil, or_false] at ha
    rcases ha with rfl | rfl <;> simp [Ask.Valid])

def interruptedCall : End × Frame ℕ :=
  pollEvents quietContext (fun _ => 0) 1 [.ready 2 accelAndLight false]
    [⟨-4, []⟩, ⟨4, [1, 2, 3, 4]⟩]

/-- An interrupted read of the accelerometer makes the light sensor be asked
for five events, and it stores its four in the cells before a buffer of one. -/
theorem interrupted_read_overruns :
    (∀ a ∈ interruptedCall.2.asks, a.Valid) ∧ ¬ Contract 1 interruptedCall := by
  have hasks : interruptedCall.2.asks =
      [⟨.acceleration, 0, 1, ⟨-4, []⟩⟩, ⟨.light, -4, 5, ⟨4, [1, 2, 3, 4]⟩⟩] := rfl
  constructor
  · intro a ha
    simp only [hasks, List.mem_cons, List.not_mem_nil, or_false] at ha
    rcases ha with rfl | rfl <;> simp [Ask.Valid]
  · intro h
    have hspace := h.within_space [_] _ [] hasks
    simp [stored] at hspace

end Wingray.SensorPoll
