import Wingray.BoundedQueue
import Wingray.GuardedRun

/-!
# The circular reader of input events

The backing array has twice the capacity: `read` may run past `mBufferEnd`
into the second half and the overflow is copied to the front. Pointers are
offsets from `mBuffer`.
-/

set_option autoImplicit false

namespace Wingray.SensorReader
open Wingray.CellMemory Wingray.BoundedQueue Wingray.GuardedRun

variable {α : Type*}

def EINVAL : ℕ := 22

structure InputEventCircularReader (α : Type*) where
  mBuffer : Memory α
  mBufferEnd : ℕ
  mHead : ℕ
  mCurr : ℕ
  mFreeSpace : ℤ

/-- The outcome of `read(2)`: an error, a byte count that is not a whole number
of events, or whole events. -/
inductive ReadOutcome (α : Type*)
  | failed (errno : ℕ)
  | torn (cells : List α)
  | whole (events : List α)

def ReadOutcome.events : ReadOutcome α → List α
  | .whole events => events
  | _ => []

namespace InputEventCircularReader

def new (cells : Memory α) (numEvents : ℕ) : InputEventCircularReader α where
  mBuffer := cells
  mBufferEnd := numEvents
  mHead := 0
  mCurr := 0
  mFreeSpace := numEvents

def advance (r : InputEventCircularReader α) (numEventsRead : ℕ) :
    InputEventCircularReader α :=
  let mHead := r.mHead+numEventsRead
  let mFreeSpace := r.mFreeSpace-numEventsRead
  if r.mBufferEnd < mHead then
    let s := mHead-r.mBufferEnd
    { r with mBuffer := copy r.mBuffer 0 r.mBufferEnd s, mHead := s, mFreeSpace := mFreeSpace }
  else { r with mHead := mHead, mFreeSpace := mFreeSpace }

def fill (r : InputEventCircularReader α) (nread : ReadOutcome α) :
    ℤ × InputEventCircularReader α :=
  if r.mFreeSpace ≠ 0 then
    match nread with
    | .failed errno => (-errno, r)
    | .torn cells => (-EINVAL, { r with mBuffer := store r.mBuffer r.mHead cells })
    | .whole events =>
      let numEventsRead := events.length
      let r := { r with mBuffer := store r.mBuffer r.mHead events }
      (numEventsRead, if numEventsRead ≠ 0 then r.advance numEventsRead else r)
  else (0, r)

def readEvent (r : InputEventCircularReader α) : ℤ × α :=
  let available := (r.mBufferEnd : ℤ)-r.mFreeSpace
  (if available ≠ 0 then 1 else 0, r.mBuffer r.mCurr)

def next (r : InputEventCircularReader α) : InputEventCircularReader α :=
  let mCurr := r.mCurr+1
  { r with
    mFreeSpace := r.mFreeSpace+1
    mCurr := if r.mBufferEnd ≤ mCurr then 0 else mCurr }

def accepted (r : InputEventCircularReader α) (nread : ReadOutcome α) : List α :=
  if r.mFreeSpace ≠ 0 then nread.events else []

/-- The cells a `fill` touches: the block offered to `read`, then source and
target of the copy to the front. -/
def fillTouches (r : InputEventCircularReader α) (nread : ReadOutcome α) : List (ℕ × ℕ) :=
  if r.mFreeSpace ≠ 0 then
    let mHead := r.mHead+nread.events.length
    (r.mHead, r.mFreeSpace.toNat) ::
      (if r.mBufferEnd < mHead then
        [(r.mBufferEnd, mHead-r.mBufferEnd), (0, mHead-r.mBufferEnd)]
      else [])
  else []

end InputEventCircularReader
open InputEventCircularReader

/-! ## Sessions -/

inductive Call (α : Type*)
  | fill (nread : ReadOutcome α)
  | readEvent
  | next

/-- A reader with the history of its use. An exposed event is recorded as the
value `readEvent` showed and the value still stored when `next` drops it. -/
structure Session (α : Type*) where
  reader : InputEventCircularReader α
  delivered : List α
  shown : Option α
  exposed : List (α × α)
  touched : List (ℕ × ℕ)

def Session.start (cells : Memory α) (numEvents : ℕ) : Session α where
  reader := InputEventCircularReader.new cells numEvents
  delivered := []
  shown := none
  exposed := []
  touched := []

def step (s : Session α) : Call α → Option (Session α)
  | .fill nread => some { s with
      reader := (s.reader.fill nread).2
      delivered := s.delivered ++ s.reader.accepted nread
      touched := s.touched ++ s.reader.fillTouches nread }
  | .readEvent => some { s with
      shown := if s.reader.readEvent.1 = 1 then some s.reader.readEvent.2 else none
      touched := s.touched ++ [(s.reader.mCurr, 1)] }
  | .next => some { s with
      reader := s.reader.next
      shown := none
      exposed := s.exposed ++ (s.shown.map (fun x => (x, s.reader.mBuffer s.reader.mCurr))).toList }

def ReadOutcome.Offered (space : ℤ) : ReadOutcome α → Prop
  | .failed _ => True
  | .torn _ => False
  | .whole events => (events.length : ℤ) ≤ space

instance (space : ℤ) : (nread : ReadOutcome α) → Decidable (nread.Offered space)
  | .failed _ => .isTrue trivial
  | .torn _ => .isFalse id
  | .whole events => inferInstanceAs (Decidable ((events.length : ℤ) ≤ space))

def Permitted (s : Session α) : Call α → Prop
  | .fill nread => s.reader.mFreeSpace ≠ 0 → nread.Offered s.reader.mFreeSpace
  | .readEvent => True
  | .next => s.shown.isSome

instance (s : Session α) : (c : Call α) → Decidable (Permitted s c)
  | .fill nread => inferInstanceAs
      (Decidable (s.reader.mFreeSpace ≠ 0 → nread.Offered s.reader.mFreeSpace))
  | .readEvent => .isTrue trivial
  | .next => inferInstanceAs (Decidable (s.shown.isSome = true))

/-! ## The reader represents a bounded queue -/

structure Represents {numEvents : ℕ} (r : InputEventCircularReader α)
    (q : Queue α numEvents) : Prop where
  mBufferEnd_eq : r.mBufferEnd = numEvents
  mHead_le : r.mHead ≤ numEvents
  mCurr_lt : r.mCurr < numEvents
  mFreeSpace_eq : r.mFreeSpace = numEvents-q.unread.length
  aligned : Aligned numEvents r.mHead (r.mCurr+q.unread.length)
  holds : Holds r.mBuffer numEvents r.mCurr q.unread

def wrapHead (mBufferEnd mHead : ℕ) : ℕ :=
  if mBufferEnd < mHead then mHead-mBufferEnd else mHead

theorem new_represents (cells : Memory α) (numEvents : ℕ) (hN : 1 ≤ numEvents) :
    Represents (InputEventCircularReader.new cells numEvents) (Queue.empty α numEvents) where
  mBufferEnd_eq := rfl
  mHead_le := Nat.zero_le _
  mCurr_lt := hN
  mFreeSpace_eq := by simp [InputEventCircularReader.new, Queue.empty, Queue.unread]
  aligned := Or.inl rfl
  holds := by
    intro i hi
    simp [Queue.empty, Queue.unread] at hi

theorem advance_storeWrapped (r : InputEventCircularReader α) (events : List α) :
    InputEventCircularReader.advance { r with mBuffer := store r.mBuffer r.mHead events }
      events.length =
    { r with
      mBuffer := storeWrapped r.mBuffer r.mBufferEnd r.mHead events
      mHead := wrapHead r.mBufferEnd (r.mHead+events.length)
      mFreeSpace := r.mFreeSpace-events.length } := by
  unfold InputEventCircularReader.advance storeWrapped wrapHead
  by_cases hw : r.mBufferEnd < r.mHead+events.length
  · simp [hw]
  · simp [hw]

section Represented

variable {numEvents : ℕ} {r : InputEventCircularReader α} {q : Queue α numEvents}

theorem unread_le (q : Queue α numEvents) : q.unread.length ≤ numEvents := by
  rw [q.unread_length]
  exact q.bounded

theorem advance_represents (h : Represents r q) (events : List α)
    (he : q.unread.length+events.length ≤ numEvents) :
    Represents (InputEventCircularReader.advance
      { r with mBuffer := store r.mBuffer r.mHead events } events.length) (q.push events he) := by
  obtain ⟨hend, hhead, hcurr, hfree, hal, hh⟩ := h
  rw [advance_storeWrapped, hend]
  have hu : (q.push events he).unread.length = q.unread.length+events.length := by
    rw [q.unread_push, List.length_append]
  have hstored := holds_append r.mBuffer numEvents r.mCurr r.mHead q.unread events hhead hcurr hal
    he hh
  constructor
  case mBufferEnd_eq => rfl
  case mHead_le =>
    simp only [wrapHead]
    split_ifs <;> omega
  case mCurr_lt => exact hcurr
  case mFreeSpace_eq =>
    simp only [hfree, hu]
    omega
  case aligned =>
    unfold Aligned at hal ⊢
    simp only [wrapHead, hu]
    split_ifs <;> omega
  case holds =>
    rw [q.unread_push]
    exact hstored

theorem push_nil (h : Represents r q) (he : q.unread.length+([] : List α).length ≤ numEvents) :
    Represents r (q.push [] he) := by
  have hu : (q.push [] he).unread = q.unread := by rw [q.unread_push, List.append_nil]
  exact ⟨h.mBufferEnd_eq, h.mHead_le, h.mCurr_lt, by rw [hu]; exact h.mFreeSpace_eq,
    by rw [hu]; exact h.aligned, by rw [hu]; exact h.holds⟩

theorem whole_represents (h : Represents r q) (events : List α)
    (he : q.unread.length+events.length ≤ numEvents) :
    Represents (if events.length ≠ 0 then
        InputEventCircularReader.advance { r with mBuffer := store r.mBuffer r.mHead events }
          events.length
      else { r with mBuffer := store r.mBuffer r.mHead events }) (q.push events he) := by
  by_cases hn : events.length ≠ 0
  · rw [if_pos hn]
    exact advance_represents h events he
  · obtain rfl : events = [] := by simpa using hn
    rw [if_neg hn, store_nil]
    exact push_nil h he

theorem fill_represents (h : Represents r q) (nread : ReadOutcome α)
    (ho : r.mFreeSpace ≠ 0 → nread.Offered r.mFreeSpace) :
    ∃ he : q.unread.length+(r.accepted nread).length ≤ numEvents,
      Represents (r.fill nread).2 (q.push (r.accepted nread) he) := by
  have hu := unread_le q
  by_cases hf : r.mFreeSpace ≠ 0
  · have hoff := ho hf
    simp only [fill, accepted, if_pos hf]
    cases nread with
    | failed errno => exact ⟨hu, push_nil h hu⟩
    | torn cells => exact hoff.elim
    | whole events =>
      have hfree := h.mFreeSpace_eq
      have hspace : (events.length : ℤ) ≤ r.mFreeSpace := hoff
      exact ⟨by simp only [ReadOutcome.events]; omega, whole_represents h events (by omega)⟩
  · simp only [fill, accepted, if_neg hf]
    exact ⟨hu, push_nil h hu⟩

theorem readEvent_represents (h : Represents r q) :
    r.readEvent.1 = 1 ↔ q.unread ≠ [] := by
  have hfree := h.mFreeSpace_eq
  have hend := h.mBufferEnd_eq
  have hl : q.unread ≠ [] ↔ q.unread.length ≠ 0 := by simp
  rw [hl]
  simp only [readEvent, hend, hfree]
  split_ifs with ha
  · exact iff_of_true rfl (by omega)
  · exact iff_of_false (by omega) (by omega)

theorem shown_represents (h : Represents r q) (x : α) (hx : q.unread.head? = some x) :
    r.mBuffer r.mCurr = x := by
  obtain ⟨xs, hu⟩ : ∃ xs, q.unread = x::xs := List.head?_eq_some_iff.mp hx
  have hcell := h.holds 0 (by simp [hu])
  have hslot : wrap numEvents (r.mCurr+0) = r.mCurr := if_pos h.mCurr_lt
  rw [hslot] at hcell
  simpa [hu] using hcell

theorem next_represents (h : Represents r q) (hu : q.unread ≠ []) :
    Represents r.next (q.pop hu) := by
  obtain ⟨x, xs, hx⟩ := List.exists_cons_of_ne_nil hu
  have hle := unread_le q
  have hfree := h.mFreeSpace_eq
  have hcurr := h.mCurr_lt
  have hal := h.aligned
  have htail : (q.pop hu).unread = xs := by rw [q.unread_pop, hx, List.tail_cons]
  have hlen : q.unread.length = xs.length+1 := by rw [hx, List.length_cons]
  have hslot : r.next.mCurr = wrap numEvents (r.mCurr+1) := by
    simp only [next, wrap, h.mBufferEnd_eq]
    split_ifs <;> omega
  constructor
  case mBufferEnd_eq => exact h.mBufferEnd_eq
  case mHead_le => exact h.mHead_le
  case mCurr_lt =>
    rw [hslot]
    exact wrap_lt (by omega)
  case mFreeSpace_eq =>
    simp only [next, htail]
    omega
  case aligned =>
    have hhead := h.mHead_le
    rw [hslot, htail]
    simp only [next, wrap]
    unfold Aligned at hal ⊢
    split_ifs <;> omega
  case holds =>
    rw [hslot, htail]
    have hh := h.holds
    rw [hx] at hh
    exact holds_tail r.mBuffer numEvents r.mCurr x xs hcurr (by omega) hh

theorem fillTouches_inside (h : Represents r q) (nread : ReadOutcome α)
    (ho : r.mFreeSpace ≠ 0 → nread.Offered r.mFreeSpace) :
    ∀ b ∈ r.fillTouches nread, b.1+b.2 ≤ 2*numEvents := by
  have hu := unread_le q
  obtain ⟨hend, hhead, hcurr, hfree, hal, hh⟩ := h
  intro b hb
  by_cases hf : r.mFreeSpace ≠ 0
  · have hev : (nread.events.length : ℤ) ≤ r.mFreeSpace := by
      have hoff := ho hf
      cases nread with
      | whole events => exact hoff
      | failed errno => simp only [ReadOutcome.events, List.length_nil]; omega
      | torn cells => exact hoff.elim
    simp only [fillTouches, if_pos hf, hend] at hb
    split_ifs at hb with hw
    · simp only [List.mem_cons, List.not_mem_nil, or_false] at hb
      rcases hb with rfl | rfl | rfl <;> simp only <;> omega
    · simp only [List.mem_cons, List.not_mem_nil, or_false] at hb
      subst hb
      simp only
      omega
  · simp [fillTouches, hf] at hb

end Represented

/-! ## Sessions keep the order of delivery -/

structure Follows {numEvents : ℕ} (s : Session α) (q : Queue α numEvents) : Prop where
  represents : Represents s.reader q
  delivered_eq : q.delivered = s.delivered
  shown_head : ∀ x ∈ s.shown, q.unread.head? = some x
  exposed_eq : s.exposed = (q.delivered.take q.consumed).map (fun x => (x, x))
  touched_inside : ∀ b ∈ s.touched, b.1+b.2 ≤ 2*numEvents

theorem start_follows (cells : Memory α) (numEvents : ℕ) (hN : 1 ≤ numEvents) :
    Follows (Session.start cells numEvents) (Queue.empty α numEvents) where
  represents := new_represents cells numEvents hN
  delivered_eq := rfl
  shown_head := by simp [Session.start]
  exposed_eq := rfl
  touched_inside := by simp [Session.start]

section Steps

variable {numEvents : ℕ} {s : Session α} {q : Queue α numEvents}

theorem fill_follows (h : Follows s q) (nread : ReadOutcome α)
    (ho : s.reader.mFreeSpace ≠ 0 → nread.Offered s.reader.mFreeSpace) :
    ∃ q' : Queue α numEvents, Follows { s with
      reader := (s.reader.fill nread).2
      delivered := s.delivered ++ s.reader.accepted nread
      touched := s.touched ++ s.reader.fillTouches nread } q' := by
  obtain ⟨he, hr⟩ := fill_represents h.represents nread ho
  use q.push (s.reader.accepted nread) he
  constructor
  case represents => exact hr
  case delivered_eq => simp only [Queue.push, h.delivered_eq]
  case shown_head =>
    intro x hx
    rw [q.unread_push, List.head?_append, h.shown_head x hx]
    rfl
  case exposed_eq =>
    rw [h.exposed_eq]
    simp only [Queue.push, List.take_append_of_le_length q.consumed_le]
  case touched_inside =>
    intro b hb
    rcases List.mem_append.mp hb with hb | hb
    · exact h.touched_inside b hb
    · exact fillTouches_inside h.represents nread ho b hb

theorem readEvent_follows (h : Follows s q) : Follows { s with
    shown := if s.reader.readEvent.1 = 1 then some s.reader.readEvent.2 else none
    touched := s.touched ++ [(s.reader.mCurr, 1)] } q := by
  constructor
  case represents => exact h.represents
  case delivered_eq => exact h.delivered_eq
  case exposed_eq => exact h.exposed_eq
  case shown_head =>
    intro x hx
    by_cases hr : s.reader.readEvent.1 = 1
    · obtain ⟨y, ys, hy⟩ :=
        List.exists_cons_of_ne_nil ((readEvent_represents h.represents).mp hr)
      have hcell := shown_represents h.represents y (by rw [hy]; rfl)
      simp only [if_pos hr, Option.mem_some_iff] at hx
      rw [hy, ← hx, ← hcell]
      rfl
    · simp [if_neg hr] at hx
  case touched_inside =>
    intro b hb
    have hcurr := h.represents.mCurr_lt
    rcases List.mem_append.mp hb with hb | hb
    · exact h.touched_inside b hb
    · obtain rfl := List.mem_singleton.mp hb
      simp only
      omega

theorem next_follows (h : Follows s q) (x : α) (hx : s.shown = some x) :
    ∃ q' : Queue α numEvents, Follows { s with
      reader := s.reader.next
      shown := none
      exposed := s.exposed ++ [(x, s.reader.mBuffer s.reader.mCurr)] } q' := by
  have hhead := h.shown_head x hx
  have hcell := shown_represents h.represents x hhead
  obtain ⟨xs, hxs⟩ := List.head?_eq_some_iff.mp hhead
  have hu : q.unread ≠ [] := by simp [hxs]
  use q.pop hu
  constructor
  case represents => exact next_represents h.represents hu
  case delivered_eq => exact h.delivered_eq
  case shown_head => simp
  case exposed_eq =>
    rw [h.exposed_eq, hcell]
    simp only [Queue.pop, q.take_pop x xs hxs, List.map_append, List.map_cons, List.map_nil]
  case touched_inside => exact h.touched_inside

theorem step_follows (h : Follows s q) (c : Call α) (hp : Permitted s c) (s' : Session α)
    (hs : step s c = some s') : ∃ q' : Queue α numEvents, Follows s' q' := by
  cases c with
  | fill nread =>
    obtain rfl := Option.some.inj hs
    exact fill_follows h nread hp
  | readEvent =>
    obtain rfl := Option.some.inj hs
    exact ⟨q, readEvent_follows h⟩
  | next =>
    obtain ⟨x, hx⟩ := Option.isSome_iff_exists.mp hp
    obtain rfl := Option.some.inj hs
    rw [hx]
    exact next_follows h x hx

end Steps

structure LosslessFifo (numEvents : ℕ) (s : Session α) : Prop where
  exposed_order : s.exposed.map Prod.fst = s.delivered.take s.exposed.length
  exposed_intact : ∀ e ∈ s.exposed, e.2 = e.1
  exposed_le : s.exposed.length ≤ s.delivered.length
  free_space : s.reader.mFreeSpace = numEvents-(s.delivered.length-s.exposed.length : ℕ)
  bounded : s.delivered.length-s.exposed.length ≤ numEvents
  available : s.reader.readEvent.1 = 1 ↔ s.exposed.length < s.delivered.length
  upcoming : ∀ x, s.delivered[s.exposed.length]? = some x → s.reader.readEvent.2 = x
  inside : ∀ b ∈ s.touched, b.1+b.2 ≤ 2*numEvents

theorem follows_losslessFifo {numEvents : ℕ} {s : Session α} {q : Queue α numEvents}
    (h : Follows s q) : LosslessFifo numEvents s := by
  have hlen : s.exposed.length = q.consumed := by
    rw [h.exposed_eq, List.length_map, List.length_take]
    exact min_eq_left q.consumed_le
  have hcons := q.consumed_le
  have hul := q.unread_length
  have hr := h.represents
  constructor
  case exposed_order =>
    rw [hlen, ← h.delivered_eq, h.exposed_eq, List.map_map]
    exact List.map_id _
  case exposed_intact =>
    intro e he
    rw [h.exposed_eq] at he
    obtain ⟨x, hx, rfl⟩ := List.mem_map.mp he
    rfl
  case exposed_le =>
    rw [hlen, ← h.delivered_eq]
    exact q.consumed_le
  case free_space => rw [hr.mFreeSpace_eq, q.unread_length, hlen, h.delivered_eq]
  case bounded =>
    rw [hlen, ← h.delivered_eq]
    exact q.bounded
  case available =>
    rw [readEvent_represents hr, hlen, ← h.delivered_eq, ← List.length_pos_iff, hul]
    omega
  case upcoming =>
    intro x hx
    rw [hlen, ← h.delivered_eq, ← List.head?_drop] at hx
    exact shown_represents hr x hx
  case inside => exact h.touched_inside

/-- In every run of permitted calls the reader is a lossless bounded queue. -/
theorem reader_fifo (cells : Memory α) (numEvents : ℕ) (hN : 1 ≤ numEvents)
    (calls : List (Call α)) (s : Session α)
    (hr : Run step Permitted (Session.start cells numEvents) calls s) :
    LosslessFifo numEvents s := by
  have hinv : ∃ q : Queue α numEvents, Follows s q := by
    apply hr.invariant (fun s => ∃ q : Queue α numEvents, Follows s q)
    · rintro s c s' ⟨q, hq⟩ hp hs
      exact step_follows hq c hp s' hs
    · exact ⟨_, start_follows cells numEvents hN⟩
  obtain ⟨q, hq⟩ := hinv
  exact follows_losslessFifo hq

def wrappingCalls : List (Call ℕ) :=
  [.fill (.whole [1, 2]), .readEvent, .fill (.failed 11), .next, .fill (.whole [3, 4]),
    .readEvent, .next, .readEvent, .fill (.whole [5]), .next, .readEvent]

theorem reader_fifo_wrapping : ∃ s, Run step Permitted (Session.start (fun _ => 0) 3)
    wrappingCalls s ∧ s.exposed.map Prod.fst = [1, 2, 3] ∧ LosslessFifo 3 s :=
  ⟨_, final_run rfl, rfl, reader_fifo _ 3 (by decide) wrappingCalls _ (final_run rfl)⟩

end Wingray.SensorReader
