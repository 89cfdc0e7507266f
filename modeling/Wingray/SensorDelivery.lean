import Wingray.GuardedRun
import Wingray.SensorPoll
import Wingray.SensorSwitch
import Wingray.AkmEvents
import Wingray.ReportEvents

/-!
# Events handed from the drivers to the caller

A driver takes events out of its ring as it stores them in the caller's buffer,
so an event that `pollEvents` does not return is gone.
-/

set_option autoImplicit false

namespace Wingray.SensorDelivery
open Wingray.GuardedRun Wingray.SensorPoll
open Wingray.SensorSwitch (Errno)

variable {ε : Type*}

inductive ReadEvents (ε : Type*)
  | failed (errno : Errno)
  | stored (events : List ε)

def ReadEvents.events : ReadEvents ε → List ε
  | .failed _ => []
  | .stored events => events

def ReadEvents.reply : ReadEvents ε → Reply ε
  | .failed errno => ⟨-errno.val, []⟩
  | .stored events => ⟨events.length, events⟩

/-! ## The drivers have no other outcomes -/

theorem failed_reply {nb : ℤ} (h : nb < 0) :
    ∃ o : ReadEvents ε, o.reply = ⟨nb, []⟩ := by
  refine ⟨.failed ⟨(-nb).toNat, by omega⟩, ?_⟩
  simp only [ReadEvents.reply, Reply.mk.injEq, and_true]
  omega

section Drivers

open Wingray.SensorReader Wingray.InputEvents

variable {F : Type} {count nb : ℤ} {nread : ReadOutcome InputEvent}
  {events : List (SensorsEvent F)}

theorem akm_reply {conv : Conversions F} {s s' : AkmEvents.AkmSensor F}
    (h : s.readEvents conv count nread = some (nb, events, s')) :
    ∃ o : ReadEvents (SensorsEvent F), o.reply = ⟨nb, events⟩ := by
  simp only [AkmEvents.AkmSensor.readEvents] at h
  split_ifs at h with hcount hfill
  · obtain ⟨rfl, rfl, rfl⟩ := by simpa using h
    exact failed_reply (by decide)
  · obtain ⟨rfl, rfl, rfl⟩ := by simpa using h
    exact failed_reply hfill
  · obtain ⟨x, _, hx⟩ := Option.map_eq_some_iff.mp h
    obtain ⟨rfl, rfl, rfl⟩ := by simpa using hx
    exact ⟨.stored _, rfl⟩

theorem report_reply {update : ReportEvents.Update F} {s s' : ReportEvents.ReportSensor F}
    (h : s.readEvents update count nread = some (nb, events, s')) :
    ∃ o : ReadEvents (SensorsEvent F), o.reply = ⟨nb, events⟩ := by
  simp only [ReportEvents.ReportSensor.readEvents] at h
  split_ifs at h with hcount hfill
  · obtain ⟨rfl, rfl, rfl⟩ := by simpa using h
    exact failed_reply (by decide)
  · obtain ⟨rfl, rfl, rfl⟩ := by simpa using h
    exact failed_reply hfill
  · obtain ⟨x, _, hx⟩ := Option.map_eq_some_iff.mp h
    obtain ⟨rfl, rfl, rfl⟩ := by simpa using hx
    exact ⟨.stored _, rfl⟩

end Drivers

/-! ## Calls -/

structure Call (ε : Type*) where
  buffer : ℤ → ε
  count : ℤ
  polls : List PollOutcome
  reads : List (ReadEvents ε)

def Call.run (context : PollContext) (c : Call ε) : End × Frame ε :=
  pollEvents context c.buffer c.count c.polls (c.reads.map ReadEvents.reply)

def data (buffer : ℤ → ε) (n : ℕ) : List ε := (List.range n).map (fun i : ℕ => buffer i)

def events (asks : List (Ask ε)) : List ε := asks.flatMap (fun a => a.reply.events)

structure Session (ε : Type*) where
  context : PollContext
  delivered : List ε
  stored : List ε

def Session.start (context : PollContext) : Session ε := ⟨context, [], []⟩

def step (s : Session ε) (c : Call ε) : Option (Session ε) :=
  (c.run s.context).1.result.map (fun r =>
    { context := (c.run s.context).2.context
      delivered := s.delivered ++ data (c.run s.context).2.buffer r.toNat
      stored := s.stored ++ events (c.run s.context).2.asks })

/-- The call uses all the outcomes it is given. -/
structure Recorded (s : Session ε) (c : Call ε) : Prop where
  reads : (c.run s.context).2.asks.map Ask.reply = c.reads.map ReadEvents.reply
  polls : (c.run s.context).2.timeouts.length = c.polls.length

def Fails : ReadEvents ε → Prop
  | .failed _ => True
  | .stored _ => False

/-- Nothing is stored, or no poll and no read fails. -/
def Lossless (c : Call ε) : Prop :=
  (∀ o ∈ c.reads, o.events = []) ∨
    ((∀ errno, PollOutcome.failed errno ∉ c.polls) ∧ ∀ o ∈ c.reads, ¬ Fails o)

/-! ## The caller's buffer -/

@[simp] theorem data_length (buffer : ℤ → ε) (n : ℕ) : (data buffer n).length = n := by
  simp [data]

theorem data_store (buffer : ℤ → ε) (n : ℕ) (xs : List ε) :
    data (storeEvents buffer n xs) (n+xs.length) = data buffer n ++ xs := by
  apply List.ext_getElem
  · simp
  · intro i hi hi'
    rw [data_length] at hi
    simp only [data, List.getElem_map, List.getElem_range, storeEvents]
    by_cases hbelow : i < n
    · rw [if_neg (by omega), List.getElem_append_left (by simpa using hbelow)]
      simp
    · have hindex : ((i : ℤ)-n).toNat = i-n := by omega
      have hroom : i-n < xs.length := by omega
      rw [if_pos (by omega), List.getElem_append_right (by simpa using hbelow), hindex]
      simp [hroom]

def Whole (asks : List (Ask ε)) : Prop := ∀ a ∈ asks, a.reply.nb = a.reply.events.length

theorem whole_total {asks : List (Ask ε)} (h : Whole asks) : total asks = (events asks).length := by
  induction asks with
  | nil => rfl
  | cons a asks ih =>
    have htail := ih (fun b hb => h b (List.mem_cons_of_mem a hb))
    have hhead := h a List.mem_cons_self
    simp only [total, List.map_cons, List.sum_cons] at htail ⊢
    simp only [events, List.flatMap_cons, List.length_append] at htail ⊢
    omega

structure Gathered (count : ℤ) (f : Frame ε) : Prop where
  ledger : Ledger count f
  gathered : Whole f.asks → data f.buffer (events f.asks).length = events f.asks

theorem visit_gathered {count : ℤ} {f : Frame ε} (h : Gathered count f) (i : Driver)
    (reply : Reply ε) : Gathered count (visit f i reply) := by
  constructor
  case ledger => exact visit_ledger h.ledger i reply
  case gathered =>
    intro hw
    have hearlier : Whole f.asks := fun a ha => hw a (List.mem_append_left _ ha)
    have hdata : f.data = (events f.asks).length := h.ledger.data_eq.trans (whole_total hearlier)
    have hevents : events (visit f i reply).asks = events f.asks ++ reply.events := by
      simp [visit, readEvents, events]
    have hbuffer : (visit f i reply).buffer = storeEvents f.buffer f.data reply.events := rfl
    rw [hevents, hbuffer, hdata, List.length_append, data_store, h.gathered hearlier]

theorem run_gathered (context : PollContext) (c : Call ε) :
    Gathered c.count (c.run context).2 := by
  apply pollLoop_keeps (P := Gathered c.count) (fun _ i reply h => visit_gathered h i reply)
    (fun _ h => ⟨awaited_ledger h.ledger, h.gathered⟩)
    (fun _ revents wake h => ⟨polled_ledger h.ledger revents wake, h.gathered⟩)
  constructor
  case ledger => exact start_ledger c.count context c.buffer
  case gathered =>
    intro _
    rfl

/-! ## One call -/

theorem scan_timeouts (is : List Driver) (f : Frame ε) (replies : List (Reply ε)) :
    (scan is f replies).frame.timeouts = f.timeouts :=
  scan_keeps (P := fun g => g.timeouts = f.timeouts) (fun _ _ _ h => h) rfl is replies

theorem pollLoop_failed (f : Frame ε) (polls : List PollOutcome) (replies : List (Reply ε))
    (hend : (pollLoop polls f replies).1 ≠ .running)
    (hall : (pollLoop polls f replies).2.timeouts.length = f.timeouts.length+polls.length) :
    (∃ errno, (pollLoop polls f replies).1 = .pollFailed errno) ↔
      ∃ errno, PollOutcome.failed errno ∈ polls := by
  fun_induction pollLoop polls f replies with
  | case1 => exact absurd rfl hend
  | case2 polls f replies g rest hg hc =>
    have ht := scan_timeouts drivers f replies
    rw [hg] at ht
    have hnil : polls = [] := by
      apply List.eq_nil_of_length_eq_zero
      simp only [Scan.frame] at ht
      rw [ht] at hall
      omega
    simp [hnil]
  | case3 => exact absurd rfl hend
  | case4 f replies g rest hg hc errno tail =>
    exact iff_of_true ⟨errno, rfl⟩ ⟨errno, List.mem_cons_self⟩
  | case5 f replies g rest hg hc revents wake tail =>
    have ht := scan_timeouts drivers f replies
    rw [hg] at ht
    have hnil : tail = [] := by
      apply List.eq_nil_of_length_eq_zero
      simp only [Scan.frame] at ht
      simp only [polled, awaited, ht, List.length_append, List.length_cons, List.length_nil] at hall
      omega
    simp [hnil]
  | case6 f replies g rest hg hc n revents wake tail hn ih =>
    have ht := scan_timeouts drivers f replies
    rw [hg] at ht
    simp only [Scan.frame] at ht
    have htail := ih hend (by
      rw [hall]
      simp only [polled, awaited, ht, List.length_append, List.length_cons, List.length_nil]
      omega)
    simp [htail]

section Reads

variable {asks : List (Ask ε)} {reads : List (ReadEvents ε)}

theorem events_reads (h : asks.map Ask.reply = reads.map ReadEvents.reply) :
    events asks = reads.flatMap ReadEvents.events := by
  have hasks : events asks = (asks.map Ask.reply).flatMap Reply.events := by
    rw [events, List.flatMap_map]
  have hreads : (reads.map ReadEvents.reply).flatMap Reply.events =
      reads.flatMap ReadEvents.events := by
    rw [List.flatMap_map]
    congr 1
    funext o
    cases o <;> rfl
  rw [hasks, h, hreads]

theorem reads_whole (h : asks.map Ask.reply = reads.map ReadEvents.reply)
    (hreads : ∀ o ∈ reads, ¬ Fails o) : Whole asks := by
  intro a ha
  have hmem : a.reply ∈ reads.map ReadEvents.reply := by
    rw [← h]
    exact List.mem_map_of_mem ha
  obtain ⟨o, ho, hreply⟩ := List.mem_map.mp hmem
  rw [← hreply]
  cases o with
  | failed errno => exact absurd trivial (hreads _ ho)
  | stored events => rfl

theorem total_reads (h : asks.map Ask.reply = reads.map ReadEvents.reply) :
    total asks = (reads.map (fun o => o.reply.nb)).sum := by
  have hasks : total asks = ((asks.map Ask.reply).map Reply.nb).sum := by
    rw [total, List.map_map]
    rfl
  rw [hasks, h, List.map_map]
  rfl

theorem reply_nb (o : ReadEvents ε) :
    o.reply.nb ≤ o.events.length ∧ (o.reply.nb = o.events.length ↔ ¬ Fails o) := by
  cases o with
  | failed errno =>
    have hpos := errno.property
    simp only [ReadEvents.reply, ReadEvents.events, List.length_nil]
    exact ⟨by omega, iff_of_false (by omega) (fun h => h trivial)⟩
  | stored events => simp [ReadEvents.reply, ReadEvents.events, Fails]

theorem reads_total (reads : List (ReadEvents ε)) :
    (reads.map (fun o => o.reply.nb)).sum ≤ (reads.flatMap ReadEvents.events).length ∧
    ((reads.map (fun o => o.reply.nb)).sum = (reads.flatMap ReadEvents.events).length ↔
      ∀ o ∈ reads, ¬ Fails o) := by
  induction reads with
  | nil => simp
  | cons o reads ih =>
    obtain ⟨hle, hiff⟩ := reply_nb o
    simp only [List.map_cons, List.sum_cons, List.flatMap_cons, List.length_append,
      List.forall_mem_cons, ← hiff, ← ih.2]
    omega

theorem reads_empty (h : ∀ o ∈ reads, o.events = []) : reads.flatMap ReadEvents.events = [] := by
  simpa using h

end Reads

section OneCall

variable {s s' : Session ε} {c : Call ε}

theorem run_settled (context : PollContext) (c : Call ε) : Settled c.count (c.run context) :=
  pollEvents_settled context c.buffer c.count c.polls _

structure Adds (s : Session ε) (c : Call ε) (s' : Session ε) (out : List ε) : Prop where
  delivered : s'.delivered = s.delivered ++ out
  stored : s'.stored = s.stored ++ c.reads.flatMap ReadEvents.events
  bounded : out.length ≤ (c.reads.flatMap ReadEvents.events).length
  whole : out.length = (c.reads.flatMap ReadEvents.events).length → Lossless c
  lossless : Lossless c → out = c.reads.flatMap ReadEvents.events

theorem poll_failed_iff (hr : Recorded s c) (hend : (c.run s.context).1 ≠ .running) :
    (∃ errno, (c.run s.context).1 = .pollFailed errno) ↔
      ∃ errno, PollOutcome.failed errno ∈ c.polls := by
  apply pollLoop_failed _ _ _ hend
  exact hr.polls.trans (Nat.zero_add _).symm

theorem failed_adds {errno : ℕ} (hr : Recorded s c)
    (hend : (c.run s.context).1 = .pollFailed errno) (hs : step s c = some s') :
    Adds s c s' [] := by
  have hpoll : ∃ errno, PollOutcome.failed errno ∈ c.polls := by
    apply (poll_failed_iff hr _).mp ⟨errno, hend⟩
    rw [hend]
    exact End.noConfusion
  have hnone : (-(errno : ℤ)).toNat = 0 := by omega
  simp only [step, hend, End.result, Option.map_some, Option.some.injEq, hnone] at hs
  subst hs
  have hempty : Lossless c → c.reads.flatMap ReadEvents.events = [] := by
    rintro (hstored | ⟨hpolls, _⟩)
    · exact reads_empty hstored
    · obtain ⟨errno, hmem⟩ := hpoll
      exact absurd hmem (hpolls errno)
  constructor
  case delivered => rfl
  case stored => rw [events_reads hr.reads]
  case bounded => exact Nat.zero_le _
  case whole =>
    intro hlen
    have hnil := List.eq_nil_of_length_eq_zero hlen.symm
    exact .inl (fun o ho => List.flatMap_eq_nil_iff.mp hnil o ho)
  case lossless => exact fun hl => (hempty hl).symm

theorem returned_adds {r : ℤ} (hr : Recorded s c) (hend : (c.run s.context).1 = .returned r)
    (hs : step s c = some s') : Adds s c s' (data (c.run s.context).2.buffer r.toNat) := by
  have hpoll : ∀ errno, PollOutcome.failed errno ∉ c.polls := by
    intro errno hmem
    have hrunning : (c.run s.context).1 ≠ .running := by
      rw [hend]
      exact End.noConfusion
    obtain ⟨errno, hfailed⟩ := (poll_failed_iff hr hrunning).mpr ⟨errno, hmem⟩
    cases hend.symm.trans hfailed
  have hcount : r = (c.reads.map (fun o => o.reply.nb)).sum :=
    ((run_settled s.context c).2 r hend).trans (total_reads hr.reads)
  obtain ⟨hle, hiff⟩ := reads_total c.reads
  rw [← hcount] at hle hiff
  simp only [step, hend, End.result, Option.map_some, Option.some.injEq] at hs
  subst hs
  constructor
  case delivered => rfl
  case stored => rw [events_reads hr.reads]
  case bounded =>
    rw [data_length]
    omega
  case whole =>
    intro hlen
    rw [data_length] at hlen
    by_cases hnil : c.reads.flatMap ReadEvents.events = []
    · exact .inl (fun o ho => List.flatMap_eq_nil_iff.mp hnil o ho)
    · have hpos := List.length_pos_iff.mpr hnil
      exact .inr ⟨hpoll, hiff.mp (by omega)⟩
  case lossless =>
    rintro (hstored | ⟨_, hreads⟩)
    · have hnil := reads_empty hstored
      rw [hnil] at hle
      have hzero : r.toNat = 0 := by simpa using hle
      rw [hnil, hzero]
      rfl
    · have hfull := hiff.mpr hreads
      have hgathered := (run_gathered s.context c).gathered (reads_whole hr.reads hreads)
      rw [events_reads hr.reads] at hgathered
      have hnat : r.toNat = (c.reads.flatMap ReadEvents.events).length := by omega
      rw [hnat]
      exact hgathered

theorem step_adds (hr : Recorded s c) (hs : step s c = some s') : ∃ out, Adds s c s' out := by
  cases hend : (c.run s.context).1 with
  | running => simp [step, hend, End.result] at hs
  | pollFailed errno => exact ⟨_, failed_adds hr hend hs⟩
  | returned r => exact ⟨_, returned_adds hr hend hs⟩

end OneCall

/-! ## Runs -/

theorem run_delivered {s t : Session ε} {cs : List (Call ε)} (hr : Run step Recorded s cs t) :
    ∃ out inp, t.delivered = s.delivered ++ out ∧ t.stored = s.stored ++ inp ∧
      out.length ≤ inp.length ∧ (out.length = inp.length → ∀ c ∈ cs, Lossless c) ∧
      ((∀ c ∈ cs, Lossless c) → out = inp) := by
  induction hr with
  | nil s => exact ⟨[], [], by simp⟩
  | @cons s s' t c cs hs ho _ ih =>
    obtain ⟨out, hadds⟩ := step_adds ho hs
    obtain ⟨outs, inps, hdelivered, hstored, hle, hwhole, hlossless⟩ := ih
    refine ⟨out ++ outs, c.reads.flatMap ReadEvents.events ++ inps, ?_, ?_, ?_, ?_, ?_⟩
    · rw [hdelivered, hadds.delivered, List.append_assoc]
    · rw [hstored, hadds.stored, List.append_assoc]
    · rw [List.length_append, List.length_append]
      exact Nat.add_le_add hadds.bounded hle
    · intro hlen
      have hbounded := hadds.bounded
      rw [List.length_append, List.length_append] at hlen
      exact List.forall_mem_cons.mpr ⟨hadds.whole (by omega), hwhole (by omega)⟩
    · intro hall
      obtain ⟨hhead, htail⟩ := List.forall_mem_cons.mp hall
      rw [hadds.lossless hhead, hlossless htail]

/-- Over a run of calls the caller receives the events the drivers stored, in
their order, exactly when every call is lossless. -/
theorem delivered_stored_iff (context : PollContext) (cs : List (Call ε)) (t : Session ε)
    (hr : Run step Recorded (.start context) cs t) :
    t.delivered = t.stored ↔ ∀ c ∈ cs, Lossless c := by
  obtain ⟨out, inp, hdelivered, hstored, _, hwhole, hlossless⟩ := run_delivered hr
  have hout : t.delivered = out := hdelivered
  have hinp : t.stored = inp := hstored
  rw [hout, hinp]
  constructor
  · intro h
    exact hwhole (congrArg List.length h)
  · exact hlossless

def accelerometerReady : PollOutcome := .ready 1 (fun i => i = .acceleration) false

def servedCall : Call ℕ where
  buffer _ := 0
  count := 2
  polls := [accelerometerReady, .ready 0 (fun _ => false) false]
  reads := [.stored [7]]

/-- The accelerometer and the light sensor fill the buffer between them. -/
def sharedCall : Call ℕ where
  buffer _ := 0
  count := 3
  polls := [.ready 2 (fun i => i = .acceleration || i = .light) false]
  reads := [.stored [8, 9], .stored [10]]

def interruptedCall : Call ℕ := { servedCall with polls := [accelerometerReady, .failed 4] }

theorem delivered_stored_served : ∃ t,
    Run step Recorded (.start quietContext) [servedCall, sharedCall] t ∧
    t.stored = [7, 8, 9, 10] ∧
    (t.delivered = t.stored ↔ ∀ c ∈ [servedCall, sharedCall], Lossless c) := by
  obtain ⟨t, hr, hstored⟩ : ∃ t,
      Run step Recorded (.start quietContext) [servedCall, sharedCall] t ∧
        t.stored = [7, 8, 9, 10] :=
    ⟨_, .cons rfl ⟨rfl, rfl⟩ (.cons rfl ⟨rfl, rfl⟩ (.nil _)), rfl⟩
  exact ⟨t, hr, hstored, delivered_stored_iff quietContext _ t hr⟩

/-- The interrupted call returns `-EINTR`, and the event it stored is lost. -/
theorem interrupted_poll_loses : ∃ t, Run step Recorded (.start quietContext) [interruptedCall] t ∧
    t.delivered = [] ∧ t.stored = [7] :=
  ⟨_, .cons rfl ⟨rfl, rfl⟩ (.nil _), rfl, rfl⟩

end Wingray.SensorDelivery
