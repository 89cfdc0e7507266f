import Wingray.AkmEvents
import Wingray.ReportEvents
import Wingray.SensorPoll

/-!
# What the poll loop waits for

The thread of `pollEvents` in small steps. It can wait in `poll` and in a
`read` of a driver, whose descriptor is opened blocking. Meanwhile the kernel
queues events and another thread enables and disables sensors.
-/

set_option autoImplicit false

namespace Wingray.SensorWait
open Wingray.CellMemory Wingray.BoundedQueue Wingray.SensorReader Wingray.GuardedRun
open Wingray.StreamMachine Wingray.InputEvents Wingray.AkmEvents Wingray.ReportEvents
open Wingray.SensorPoll (Driver drivers)

variable {F : Type}

/-! ## Drivers -/

inductive SensorBase (F : Type)
  | report (update : Update F) (s : ReportSensor F)
  | akm (s : AkmSensor F)

namespace SensorBase

def mInputReader : SensorBase F → InputEventCircularReader InputEvent
  | report _ s => s.mInputReader
  | akm s => s.mInputReader

def withReader (r : InputEventCircularReader InputEvent) : SensorBase F → SensorBase F
  | report update s => report update { s with mInputReader := r }
  | akm s => akm { s with mInputReader := r }

def enabled : SensorBase F → Bool
  | report _ s => s.mEnabled
  | akm s => s.mEnabled ≠ 0

def enable (mEnabled : BitVec 32) : SensorBase F → SensorBase F
  | report update s => report update { s with mEnabled := mEnabled ≠ 0 }
  | akm s => akm { s with mEnabled := mEnabled }

def readLoop (conv : Conversions F) (fuel count : ℕ) :
    SensorBase F → Option (List (SensorsEvent F) × SensorBase F)
  | report update s =>
    (ReportSensor.readLoop update fuel s count).map (fun x => (x.1, report update x.2))
  | akm s => (AkmSensor.readLoop conv fuel s count).map (fun x => (x.1, akm x.2))

/-- The undelivered reports of enabled sensors in the driver's ring. -/
def reports (conv : Conversions F) : SensorBase F → List (SensorsEvent F)
  | report update s => (ReportEvents.reference update s.mEnabled).output
      s.mPendingEvent.toSample (ringEvents s.mInputReader)
  | akm s => (AkmEvents.reference conv s.mEnabled).output (readings s) (ringEvents s.mInputReader)

end SensorBase

/-! ## The thread -/

/-- Where the thread is: outside, in the loop over the drivers, in `read` on
the descriptor of a driver, or in `poll`. -/
inductive Pc
  | idle
  | scan (rest : List Driver) (count nbEvents : ℤ)
  | reading (sensor : Driver) (rest : List Driver) (count nbEvents : ℤ)
  | polling (count nbEvents : ℤ)

/-- `drained` and `failed` are history: the last `readEvents` of the driver
used up its room and left its kernel queue empty, and nothing has arrived since;
the last `readEvents` of the driver failed. -/
structure SensorsPollContext (F : Type) where
  mSensors : Driver → SensorBase F
  revents : Driver → Bool
  mHasPendingEvent : Bool
  kernelQueue : Driver → List InputEvent
  pc : Pc
  drained : Driver → Bool
  failed : Driver → Bool

inductive Label
  | pollEvents (count : ℤ)
  | advance
  | readReturns (n : ℕ)
  | readFails (errno : ℕ)
  | pollReturns (wake : Bool)
  | pollFails
  | arrive (sensor : Driver) (events : List InputEvent)
  | enable (sensor : Driver) (mEnabled : BitVec 32)

namespace SensorsPollContext

def hasPendingEvents (s : SensorsPollContext F) : Driver → Bool
  | .light => s.mHasPendingEvent
  | _ => false

def visited (s : SensorsPollContext F) (i : Driver) (rest : List Driver) (count nbEvents nb : ℤ) :
    SensorsPollContext F := { s with
  revents := fun k => if k = i ∧ nb < count then false else s.revents k
  pc := .scan rest (count-nb) (nbEvents+nb)
  drained := fun k => if k = i then !(nb < count) && (s.kernelQueue i).isEmpty else s.drained k
  failed := fun k => if k = i then nb < 0 else s.failed k }

def filled (conv : Conversions F) (s : SensorsPollContext F) (i : Driver) (rest : List Driver)
    (count nbEvents : ℤ) (fill : ℤ × InputEventCircularReader InputEvent) :
    Option (SensorsPollContext F) :=
  let sensor := (s.mSensors i).withReader fill.2
  if fill.1 < 0 then
    some ({ s with mSensors := Function.update s.mSensors i sensor }.visited i rest count nbEvents
      fill.1)
  else (sensor.readLoop conv (available fill.2+1) count.toNat).map (fun x =>
    { s with mSensors := Function.update s.mSensors i x.2 }.visited i rest count nbEvents
      x.1.length)

def readEvents (conv : Conversions F) (s : SensorsPollContext F) (i : Driver) (rest : List Driver)
    (count nbEvents : ℤ) : Option (SensorsPollContext F) :=
  if count < 1 then some (s.visited i rest count nbEvents (-EINVAL))
  else if s.hasPendingEvents i then
    some ({ s with mHasPendingEvent := false }.visited i rest count nbEvents
      (if (s.mSensors i).enabled then 1 else 0))
  else if (s.mSensors i).mInputReader.mFreeSpace ≠ 0 then
    some { s with pc := .reading i rest count nbEvents }
  else s.filled conv i rest count nbEvents ((s.mSensors i).mInputReader.fill (.whole []))

def ready (s : SensorsPollContext F) (i : Driver) : Bool := !(s.kernelQueue i).isEmpty

end SensorsPollContext
open SensorsPollContext

def step (conv : Conversions F) (s : SensorsPollContext F) : Label → Option (SensorsPollContext F)
  | .pollEvents count =>
    match s.pc with
    | .idle => if 1 ≤ count then some { s with pc := .scan drivers count 0 } else none
    | _ => none
  | .advance =>
    match s.pc with
    | .scan [] count nbEvents =>
      some { s with pc := if count = 0 then .idle else .polling count nbEvents }
    | .scan (i::rest) count nbEvents =>
      if count = 0 then some { s with pc := .idle }
      else if s.revents i || s.hasPendingEvents i then s.readEvents conv i rest count nbEvents
      else some { s with pc := .scan rest count nbEvents }
    | _ => none
  | .readReturns n =>
    match s.pc with
    | .reading i rest count nbEvents =>
      if 1 ≤ n ∧ n ≤ (s.kernelQueue i).length ∧ n ≤ (s.mSensors i).mInputReader.mFreeSpace then
        { s with kernelQueue := Function.update s.kernelQueue i ((s.kernelQueue i).drop n) }.filled
          conv i rest count nbEvents
          ((s.mSensors i).mInputReader.fill (.whole ((s.kernelQueue i).take n)))
      else none
    | _ => none
  | .readFails errno =>
    match s.pc with
    | .reading i rest count nbEvents =>
      if 1 ≤ errno then
        s.filled conv i rest count nbEvents ((s.mSensors i).mInputReader.fill (.failed errno))
      else none
    | _ => none
  | .pollReturns wake =>
    match s.pc with
    | .polling count nbEvents =>
      if wake || drivers.any s.ready then
        some { s with revents := s.ready, pc := .scan drivers count nbEvents }
      else if nbEvents ≠ 0 then some { s with revents := s.ready, pc := .idle }
      else none
    | _ => none
  | .pollFails =>
    match s.pc with
    | .polling _ _ => some { s with pc := .idle }
    | _ => none
  | .arrive i events =>
    if events = [] then none
    else some { s with
      kernelQueue := Function.update s.kernelQueue i (s.kernelQueue i ++ events)
      drained := Function.update s.drained i false }
  | .enable i mEnabled => some { s with
      mSensors := Function.update s.mSensors i ((s.mSensors i).enable mEnabled) }

def SensorsPollContext.new (conv : Conversions F) (accelerometer gyro : Bool) (akm : BitVec 32)
    (cells : Driver → Memory InputEvent) : SensorsPollContext F where
  mSensors := fun
    | .acceleration => .report (AccelerationSensor.update conv)
        (AccelerationSensor.new conv accelerometer (cells .acceleration))
    | .light => .report (LightSensor.update conv) (LightSensor.new conv (cells .light))
    | .akm => .akm (.new conv akm (cells .akm))
    | .gyro => .report (GyroSensor.update conv) (GyroSensor.new conv gyro (cells .gyro))
  revents := fun _ => false
  mHasPendingEvent := false
  kernelQueue := fun _ => []
  pc := .idle
  drained := fun _ => false
  failed := fun _ => false

/-! ## The rings -/

def Ring : SensorBase F → List InputEvent → Prop
  | .report _ s, xs => ∃ (n : ℕ) (q : Queue InputEvent n),
      Represents s.mInputReader q ∧ q.unread = xs
  | .akm s, xs => ∃ q : Queue InputEvent numEvents, Holds s q ∧ q.unread = xs

section Rings

variable {b : SensorBase F} {xs : List InputEvent}

theorem ring_events (h : Ring b xs) : ringEvents b.mInputReader = xs := by
  cases b with
  | report update s =>
    obtain ⟨n, q, hq, hu⟩ := h
    exact (ringEvents_eq hq).trans hu
  | akm s =>
    obtain ⟨q, hq, hu⟩ := h
    exact (ringEvents_eq hq.represents).trans hu

theorem ring_enable (h : Ring b xs) (mEnabled : BitVec 32) : Ring (b.enable mEnabled) xs := by
  cases b with
  | report update s => exact h
  | akm s =>
    obtain ⟨q, hq, hu⟩ := h
    exact ⟨q, ⟨hq.represents, hq.masked⟩, hu⟩

theorem ring_fill (h : Ring b xs) (nread : ReadOutcome InputEvent)
    (ho : b.mInputReader.mFreeSpace ≠ 0 → nread.Offered b.mInputReader.mFreeSpace) :
    Ring (b.withReader (b.mInputReader.fill nread).2) (xs ++ b.mInputReader.accepted nread) := by
  cases b with
  | report update s =>
    obtain ⟨n, q, hq, rfl⟩ := h
    obtain ⟨he, hfill⟩ := fill_represents hq nread ho
    exact ⟨n, _, hfill, q.unread_push _ he⟩
  | akm s =>
    obtain ⟨q, hq, rfl⟩ := h
    obtain ⟨he, hfill⟩ := fill_represents hq.represents nread ho
    exact ⟨_, ⟨hfill, hq.masked⟩, q.unread_push _ he⟩

theorem ring_readLoop (conv : Conversions F) (h : Ring b xs) (count : ℕ) :
    ∃ out b' ys, b.readLoop conv (available b.mInputReader+1) count = some (out, b') ∧
      Ring b' ys ∧ Portion count out ys := by
  cases b with
  | report update s =>
    obtain ⟨n, q, hq, rfl⟩ := h
    obtain ⟨out, s', q', hloop, hserves, hend⟩ := ReportEvents.readLoop_serves update
      (available s.mInputReader+1) count hq (by rw [available_eq hq]; exact Nat.lt_succ_self _)
    refine ⟨out, .report update s', q'.unread, ?_, ⟨n, q', hserves.represents, rfl⟩, hend⟩
    exact congrArg (Option.map _) hloop
  | akm s =>
    obtain ⟨q, hq, rfl⟩ := h
    obtain ⟨out, s', q', hloop, hserves, hend⟩ := AkmEvents.readLoop_serves conv
      (available s.mInputReader+1) count hq
      (by rw [available_eq hq.represents]; exact Nat.lt_succ_self _)
    refine ⟨out, .akm s', q'.unread, ?_, ⟨q', hserves.holds, rfl⟩, hend⟩
    exact congrArg (Option.map _) hloop

theorem reports_nil (conv : Conversions F) (h : Ring b []) : b.reports conv = [] := by
  have he := ring_events h
  cases b with
  | report update s =>
    rw [SensorBase.mInputReader] at he
    rw [SensorBase.reports, he, Machine.output]
  | akm s =>
    rw [SensorBase.mInputReader] at he
    rw [SensorBase.reports, he, Machine.output]

end Rings

/-! ## The invariant -/

/-- What is known of the poll bits at each point of the thread: once a driver
has been passed with room left, its bit is off. -/
def Control (revents : Driver → Bool) : Pc → Prop
  | .idle => True
  | .scan rest count _ => 0 ≤ count ∧ (count ≠ 0 → ∀ k, k ∉ rest → revents k = false)
  | .reading i rest count _ =>
    1 ≤ count ∧ revents i = true ∧ ∀ k, k ∉ rest → k ≠ i → revents k = false
  | .polling count _ => 0 ≤ count ∧ ∀ k, revents k = false

/-- A poll bit over an empty kernel queue has been kept by a `readEvents` that
used up its room, and a ring with unread events has its bit or lost it to a
failure. -/
structure Inv (s : SensorsPollContext F) : Prop where
  notPending : s.mHasPendingEvent = false
  rings : ∀ k, ∃ xs, Ring (s.mSensors k) xs ∧
    (xs ≠ [] → s.revents k = true ∨ s.failed k = true)
  queues : ∀ k, s.drained k = true → s.kernelQueue k = []
  bits : ∀ k, s.revents k = true → s.kernelQueue k = [] → s.drained k = true
  control : Control s.revents s.pc

theorem mem_drivers (k : Driver) : k ∈ drivers := by
  cases k <;> decide

theorem new_inv (conv : Conversions F) (accelerometer gyro : Bool) (akm : BitVec 32)
    (cells : Driver → Memory InputEvent) :
    Inv (SensorsPollContext.new conv accelerometer gyro akm cells) where
  notPending := rfl
  rings := by
    intro k
    refine ⟨[], ?_, fun h => absurd rfl h⟩
    cases k with
    | acceleration => exact ⟨32, _, new_represents _ 32 (by decide), rfl⟩
    | light => exact ⟨4, _, new_represents _ 4 (by decide), rfl⟩
    | gyro => exact ⟨32, _, new_represents _ 32 (by decide), rfl⟩
    | akm => exact ⟨_, ⟨new_represents _ numEvents (by decide), new_masked conv akm _⟩, rfl⟩
  queues := fun _ h => absurd h Bool.false_ne_true
  bits := fun _ h => absurd h Bool.false_ne_true
  control := trivial

structure Visiting (s : SensorsPollContext F) (i : Driver) (rest : List Driver) (count nb : ℤ) :
    Prop where
  notPending : s.mHasPendingEvent = false
  ring : ∃ xs, Ring (s.mSensors i) xs ∧ (0 ≤ nb → nb < count → xs = [])
  rings : ∀ k, k ≠ i → ∃ xs, Ring (s.mSensors k) xs ∧
    (xs ≠ [] → s.revents k = true ∨ s.failed k = true)
  queues : ∀ k, k ≠ i → s.drained k = true → s.kernelQueue k = []
  bits : ∀ k, k ≠ i → s.revents k = true → s.kernelQueue k = [] → s.drained k = true
  past : ∀ k, k ∉ rest → k ≠ i → s.revents k = false
  within : nb ≤ count
  bit : s.revents i = true

theorem visited_inv {s : SensorsPollContext F} {i : Driver} {rest : List Driver} {count nb : ℤ}
    (h : Visiting s i rest count nb) (nbEvents : ℤ) :
    Inv (s.visited i rest count nbEvents nb) := by
  have hwithin := h.within
  constructor
  case notPending => exact h.notPending
  case rings =>
    intro k
    by_cases hk : k = i
    · subst hk
      obtain ⟨xs, hring, hempty⟩ := h.ring
      refine ⟨xs, hring, ?_⟩
      intro hne
      by_cases hneg : nb < 0
      · right
        simp [visited, hneg]
      · left
        have hfull : ¬ nb < count := fun hlt => hne (hempty (not_lt.mp hneg) hlt)
        simp [visited, hfull, h.bit]
    · obtain ⟨xs, hring, hne⟩ := h.rings k hk
      exact ⟨xs, hring, by simpa [visited, hk] using hne⟩
  case queues =>
    intro k hdrained
    by_cases hk : k = i
    · subst hk
      simp only [visited, if_true, Bool.and_eq_true, List.isEmpty_iff] at hdrained
      exact hdrained.2
    · simp only [visited, if_neg hk] at hdrained
      exact h.queues k hk hdrained
  case bits =>
    intro k hbit hqueue
    by_cases hk : k = i
    · subst hk
      simp only [visited, true_and] at hbit hqueue ⊢
      split_ifs at hbit with hlt
      simp [hlt, hqueue]
    · simp only [visited, hk, false_and, if_false] at hbit hqueue ⊢
      exact h.bits k hk hbit hqueue
  case control =>
    refine ⟨by omega, ?_⟩
    intro hroom k hk
    have hlt : nb < count := by omega
    by_cases hki : k = i
    · simp [visited, hki, hlt]
    · simpa [visited, hki] using h.past k hk hki

theorem filled_visited (conv : Conversions F) {s : SensorsPollContext F} {i : Driver}
    {xs : List InputEvent} {count : ℤ} (hring : Ring (s.mSensors i) xs) (hc : 1 ≤ count)
    (rest : List Driver) (nbEvents : ℤ) (nread : ReadOutcome InputEvent)
    (ho : (s.mSensors i).mInputReader.mFreeSpace ≠ 0 →
      nread.Offered (s.mSensors i).mInputReader.mFreeSpace) :
    ∃ b nb, s.filled conv i rest count nbEvents ((s.mSensors i).mInputReader.fill nread) =
        some ({ s with mSensors := Function.update s.mSensors i b }.visited i rest count nbEvents
          nb) ∧
      (∃ ys, Ring b ys ∧ (0 ≤ nb → nb < count → ys = [])) ∧ nb ≤ count := by
  have hfill := ring_fill hring nread ho
  simp only [filled]
  split_ifs with hneg
  · refine ⟨_, _, rfl, ⟨_, hfill, ?_⟩, by omega⟩
    intro hnonneg
    exact absurd hnonneg (not_le.mpr hneg)
  · have hreader : ∀ (b : SensorBase F) r, (b.withReader r).mInputReader = r := by
      intro b r
      cases b <;> rfl
    obtain ⟨out, b, ys, hloop, hb, hportion⟩ := ring_readLoop conv hfill count.toNat
    have hwithin := hportion.within
    rw [hreader] at hloop
    rw [hloop]
    refine ⟨b, out.length, rfl, ⟨ys, hb, ?_⟩, by omega⟩
    intro _ hlt
    exact hportion.short (by omega)

section Steps

variable {conv : Conversions F} {s s' : SensorsPollContext F} {i : Driver} {rest : List Driver}
  {count nbEvents : ℤ}

theorem filled_inv (h : Inv s) (hc : 1 ≤ count) (hbit : s.revents i = true)
    (hpast : ∀ k, k ∉ rest → k ≠ i → s.revents k = false) (queue : Driver → List InputEvent)
    (hqueue : ∀ k, k ≠ i → queue k = s.kernelQueue k) (nread : ReadOutcome InputEvent)
    (ho : (s.mSensors i).mInputReader.mFreeSpace ≠ 0 →
      nread.Offered (s.mSensors i).mInputReader.mFreeSpace)
    (hs : SensorsPollContext.filled conv { s with kernelQueue := queue } i rest count nbEvents
      ((s.mSensors i).mInputReader.fill nread) = some s') : Inv s' := by
  obtain ⟨xs, hring, _⟩ := h.rings i
  obtain ⟨b, nb, hfilled, hb, hnb⟩ := filled_visited (s := { s with kernelQueue := queue }) conv
    hring hc rest nbEvents nread ho
  obtain rfl := Option.some.inj (hs.symm.trans hfilled)
  apply visited_inv
  constructor
  case notPending => exact h.notPending
  case ring => simpa using hb
  case rings =>
    intro k hk
    simpa [hk] using h.rings k
  case queues => exact fun k hk hdrained => (hqueue k hk).trans (h.queues k hdrained)
  case bits =>
    exact fun k hk hrevents hempty => h.bits k hrevents ((hqueue k hk).symm.trans hempty)
  case past => exact hpast
  case within => exact hnb
  case bit => exact hbit

theorem Inv.goto (h : Inv s) {pc : Pc} (hpc : Control s.revents pc) : Inv { s with pc := pc } :=
  ⟨h.notPending, h.rings, h.queues, h.bits, hpc⟩

theorem Inv.polled (h : Inv s) (hbits : ∀ k, s.revents k = false) {pc : Pc}
    (hpc : Control s.ready pc) : Inv { s with revents := s.ready, pc := pc } where
  notPending := h.notPending
  rings := by
    intro k
    obtain ⟨xs, hring, hne⟩ := h.rings k
    refine ⟨xs, hring, ?_⟩
    intro hxs
    rcases hne hxs with hbit | hfailed
    · rw [hbits k] at hbit
      cases hbit
    · exact .inr hfailed
  queues := h.queues
  bits := by
    intro k hbit hempty
    simp only [ready] at hbit hempty
    rw [hempty] at hbit
    cases hbit
  control := hpc

theorem Inv.arrived (h : Inv s) (i : Driver) {events : List InputEvent} (hne : events ≠ []) :
    Inv { s with
      kernelQueue := Function.update s.kernelQueue i (s.kernelQueue i ++ events)
      drained := Function.update s.drained i false } where
  notPending := h.notPending
  rings := h.rings
  queues := by
    intro k
    by_cases hk : k = i
    · subst hk
      simp
    · simpa [hk] using h.queues k
  bits := by
    intro k
    by_cases hk : k = i
    · subst hk
      simp [hne]
    · simpa [hk] using h.bits k
  control := h.control

theorem Inv.enabled (h : Inv s) (i : Driver) (mEnabled : BitVec 32) :
    Inv { s with mSensors := Function.update s.mSensors i ((s.mSensors i).enable mEnabled) } where
  notPending := h.notPending
  rings := by
    intro k
    obtain ⟨xs, hring, hne⟩ := h.rings k
    refine ⟨xs, ?_, hne⟩
    by_cases hk : k = i
    · subst hk
      simpa using ring_enable hring mEnabled
    · simpa [hk] using hring
  queues := h.queues
  bits := h.bits
  control := h.control

theorem hasPendingEvents_false (h : Inv s) (i : Driver) : s.hasPendingEvents i = false := by
  cases i <;> first | rfl | exact h.notPending

theorem readEvents_inv (h : Inv s) (hc : 1 ≤ count) (hbit : s.revents i = true)
    (hpast : ∀ k, k ∉ rest → k ≠ i → s.revents k = false)
    (hs : s.readEvents conv i rest count nbEvents = some s') : Inv s' := by
  rw [readEvents, if_neg (not_lt.mpr hc), hasPendingEvents_false h, if_neg Bool.false_ne_true] at hs
  split_ifs at hs with hfree
  · obtain rfl := Option.some.inj hs
    exact h.goto ⟨hc, hbit, hpast⟩
  · exact filled_inv h hc hbit hpast s.kernelQueue (fun _ _ => rfl) (.whole [])
      (fun hne => absurd hne hfree) hs

theorem advance_inv (h : Inv s) (hs : step conv s .advance = some s') : Inv s' := by
  have hcontrol := h.control
  simp only [step] at hs
  split at hs
  · case _ count nbEvents hpc =>
    rw [hpc] at hcontrol
    obtain rfl := Option.some.inj hs
    split_ifs with hz
    · exact h.goto trivial
    · exact h.goto ⟨hcontrol.1, fun k => hcontrol.2 hz k List.not_mem_nil⟩
  · case _ i rest count nbEvents hpc =>
    rw [hpc] at hcontrol
    obtain ⟨hnonneg, hpast⟩ := hcontrol
    have hrest : ∀ k, count ≠ 0 → k ∉ rest → k ≠ i → s.revents k = false := by
      intro k hz hk hki
      exact hpast hz k (by simp [hk, hki])
    split_ifs at hs with hz hbit
    · obtain rfl := Option.some.inj hs
      exact h.goto trivial
    · rw [hasPendingEvents_false h, Bool.or_false] at hbit
      exact readEvents_inv h (by omega) hbit (fun k => hrest k hz) hs
    · rw [hasPendingEvents_false h, Bool.or_false] at hbit
      obtain rfl := Option.some.inj hs
      apply h.goto
      refine ⟨hnonneg, ?_⟩
      intro _ k hk
      by_cases hki : k = i
      · exact hki ▸ Bool.eq_false_iff.mpr hbit
      · exact hrest k hz hk hki
  · cases hs

theorem step_inv (h : Inv s) {l : Label} (hs : step conv s l = some s') : Inv s' := by
  have hcontrol := h.control
  cases l with
  | advance => exact advance_inv h hs
  | pollEvents count =>
    simp only [step] at hs
    split at hs
    · split_ifs at hs with hc
      obtain rfl := Option.some.inj hs
      exact h.goto ⟨by omega, fun _ k hk => absurd (mem_drivers k) hk⟩
    · cases hs
  | readReturns n =>
    simp only [step] at hs
    split at hs
    · case _ i rest count nbEvents hpc =>
      rw [hpc] at hcontrol
      obtain ⟨hc, hbit, hpast⟩ := hcontrol
      split_ifs at hs with hn
      refine filled_inv h hc hbit hpast _ (fun k hk => Function.update_of_ne hk _ _) _ ?_ hs
      intro _
      have hlength : ((s.kernelQueue i).take n).length ≤ n := List.length_take_le _ _
      have hfree := hn.2.2
      simp only [ReadOutcome.Offered]
      omega
    · cases hs
  | readFails errno =>
    simp only [step] at hs
    split at hs
    · case _ i rest count nbEvents hpc =>
      rw [hpc] at hcontrol
      obtain ⟨hc, hbit, hpast⟩ := hcontrol
      split_ifs at hs
      exact filled_inv h hc hbit hpast s.kernelQueue (fun _ _ => rfl) (.failed errno)
        (fun _ => trivial) hs
    · cases hs
  | pollReturns wake =>
    simp only [step] at hs
    split at hs
    · case _ count nbEvents hpc =>
      rw [hpc] at hcontrol
      obtain ⟨hnonneg, hbits⟩ := hcontrol
      split_ifs at hs
      · obtain rfl := Option.some.inj hs
        exact h.polled hbits ⟨hnonneg, fun _ k hk => absurd (mem_drivers k) hk⟩
      · obtain rfl := Option.some.inj hs
        exact h.polled hbits trivial
    · cases hs
  | pollFails =>
    simp only [step] at hs
    split at hs
    · obtain rfl := Option.some.inj hs
      exact h.goto trivial
    · cases hs
  | arrive i events =>
    simp only [step] at hs
    split_ifs at hs with hne
    obtain rfl := Option.some.inj hs
    exact h.arrived i hne
  | enable i mEnabled =>
    obtain rfl := Option.some.inj hs
    exact h.enabled i mEnabled

end Steps

/-! ## Waiting -/

/-- The ring of driver `k` holds an undelivered report of an enabled sensor. -/
def HoldsReport (conv : Conversions F) (s : SensorsPollContext F) (k : Driver) : Prop :=
  (s.mSensors k).reports conv ≠ []

/-- No step issues a `read` on an empty kernel queue, or a `poll` without timeout,
while a ring holds an undelivered report. -/
structure Prompt (conv : Conversions F) (s : SensorsPollContext F) (l : Label) : Prop where
  reads : l = .advance → ∀ s' i rest count nbEvents, step conv s l = some s' →
    s'.pc = .reading i rest count nbEvents → s.kernelQueue i = [] → ∀ k, ¬ HoldsReport conv s k
  polls : l = .advance → ∀ s' count, step conv s l = some s' →
    s'.pc = .polling count 0 → ∀ k, ¬ HoldsReport conv s k

/-- While a ring holds an undelivered report, no driver with room in its ring
is visited whose bit was kept although its last `readEvents` emptied the kernel
queue, and no `poll` without timeout is issued if that report's own driver failed last. -/
structure Resumable (conv : Conversions F) (s : SensorsPollContext F) (l : Label) : Prop where
  drained : l = .advance → ∀ i rest count nbEvents, s.pc = .scan (i::rest) count nbEvents →
    count ≠ 0 → s.revents i = true → (s.mSensors i).mInputReader.mFreeSpace ≠ 0 →
    s.drained i = true → ∀ k, ¬ HoldsReport conv s k
  failed : l = .advance → ∀ count, s.pc = .scan [] count 0 → count ≠ 0 →
    ∀ k, s.failed k = true → ¬ HoldsReport conv s k

section Waits

variable {conv : Conversions F} {s s' : SensorsPollContext F} {i : Driver} {rest : List Driver}
  {count nbEvents : ℤ}

theorem filled_pc {fill : ℤ × InputEventCircularReader InputEvent}
    (hs : s.filled conv i rest count nbEvents fill = some s') :
    ∃ room nb, s'.pc = .scan rest room nb := by
  simp only [filled] at hs
  split_ifs at hs
  · obtain rfl := Option.some.inj hs
    exact ⟨_, _, rfl⟩
  · obtain ⟨x, _, rfl⟩ := Option.map_eq_some_iff.mp hs
    exact ⟨_, _, rfl⟩

theorem advance_cases (h : Inv s) (hs : step conv s .advance = some s') :
    (∃ count nbEvents, s.pc = .scan [] count nbEvents ∧ count ≠ 0 ∧
      s'.pc = .polling count nbEvents) ∨
    (∃ i rest count nbEvents, s.pc = .scan (i::rest) count nbEvents ∧ count ≠ 0 ∧
      s.revents i = true ∧ (s.mSensors i).mInputReader.mFreeSpace ≠ 0 ∧
      s'.pc = .reading i rest count nbEvents) ∨
    s'.pc = .idle ∨ ∃ rest count nbEvents, s'.pc = .scan rest count nbEvents := by
  have hcontrol := h.control
  simp only [step] at hs
  split at hs
  · case _ count nbEvents hpc =>
    obtain rfl := Option.some.inj hs
    by_cases hz : count = 0
    · exact .inr (.inr (.inl (if_pos hz)))
    · exact .inl ⟨count, nbEvents, hpc, hz, if_neg hz⟩
  · case _ i rest count nbEvents hpc =>
    rw [hpc] at hcontrol
    split_ifs at hs with hz hbit
    · obtain rfl := Option.some.inj hs
      exact .inr (.inr (.inl rfl))
    · have hroom : ¬ count < 1 := by
        have := hcontrol.1
        omega
      rw [readEvents, if_neg hroom, hasPendingEvents_false h, if_neg Bool.false_ne_true] at hs
      rw [hasPendingEvents_false h, Bool.or_false] at hbit
      split_ifs at hs with hfree
      · obtain rfl := Option.some.inj hs
        exact .inr (.inl ⟨i, rest, count, nbEvents, hpc, hz, hbit, hfree, rfl⟩)
      · obtain ⟨room, nb, hscan⟩ := filled_pc hs
        exact .inr (.inr (.inr ⟨_, _, _, hscan⟩))
    · obtain rfl := Option.some.inj hs
      exact .inr (.inr (.inr ⟨_, _, _, rfl⟩))
  · cases hs

theorem issues_read (conv : Conversions F) (h : Inv s) :
    (∃ s', step conv s .advance = some s' ∧ s'.pc = .reading i rest count nbEvents) ↔
      s.pc = .scan (i::rest) count nbEvents ∧ count ≠ 0 ∧ s.revents i = true ∧
        (s.mSensors i).mInputReader.mFreeSpace ≠ 0 := by
  constructor
  · rintro ⟨s', hs, hpc'⟩
    rcases advance_cases h hs with ⟨_, _, _, _, hpc⟩ |
      ⟨j, rest', room, nb, hscan, hz, hbit, hfree, hpc⟩ | hpc | ⟨_, _, _, hpc⟩
    · cases hpc.symm.trans hpc'
    · cases hpc.symm.trans hpc'
      exact ⟨hscan, hz, hbit, hfree⟩
    · cases hpc.symm.trans hpc'
    · cases hpc.symm.trans hpc'
  · rintro ⟨hpc, hz, hbit, hfree⟩
    have hcontrol := h.control
    rw [hpc] at hcontrol
    have hroom : ¬ count < 1 := by
      have := hcontrol.1
      omega
    refine ⟨{ s with pc := .reading i rest count nbEvents }, ?_, rfl⟩
    simp only [step, hpc]
    rw [if_neg hz, hbit, Bool.true_or, if_pos rfl, readEvents, if_neg hroom,
      hasPendingEvents_false h, if_neg Bool.false_ne_true, if_pos hfree]

theorem issues_poll (conv : Conversions F) (h : Inv s) :
    (∃ s', step conv s .advance = some s' ∧ s'.pc = .polling count nbEvents) ↔
      s.pc = .scan [] count nbEvents ∧ count ≠ 0 := by
  constructor
  · rintro ⟨s', hs, hpc'⟩
    rcases advance_cases h hs with ⟨room, nb, hscan, hz, hpc⟩ | ⟨_, _, _, _, _, _, _, _, hpc⟩ |
      hpc | ⟨_, _, _, hpc⟩
    · cases hpc.symm.trans hpc'
      exact ⟨hscan, hz⟩
    · cases hpc.symm.trans hpc'
    · cases hpc.symm.trans hpc'
    · cases hpc.symm.trans hpc'
  · rintro ⟨hpc, hz⟩
    refine ⟨{ s with pc := .polling count nbEvents }, ?_, rfl⟩
    simp only [step, hpc]
    rw [if_neg hz]

theorem holdsReport_tracked (h : Inv s) {k : Driver} (hk : HoldsReport conv s k) :
    s.revents k = true ∨ s.failed k = true := by
  obtain ⟨xs, hring, hne⟩ := h.rings k
  apply hne
  rintro rfl
  exact hk (reports_nil conv hring)

theorem prompt_iff (h : Inv s) (l : Label) : Prompt conv s l ↔ Resumable conv s l := by
  constructor
  · intro hprompt
    constructor
    · rintro rfl i rest count nbEvents hpc hz hbit hfree hdrained
      obtain ⟨s', hs, hpc'⟩ := (issues_read conv h).mpr ⟨hpc, hz, hbit, hfree⟩
      exact hprompt.reads rfl s' i rest count nbEvents hs hpc' (h.queues i hdrained)
    · rintro rfl count hpc hz k _
      obtain ⟨s', hs, hpc'⟩ := (issues_poll conv h).mpr ⟨hpc, hz⟩
      exact hprompt.polls rfl s' count hs hpc' k
  · intro hresumable
    constructor
    · rintro rfl s' i rest count nbEvents hs hpc' hempty
      obtain ⟨hpc, hz, hbit, hfree⟩ := (issues_read conv h).mp ⟨s', hs, hpc'⟩
      exact hresumable.drained rfl i rest count nbEvents hpc hz hbit hfree (h.bits i hbit hempty)
    · rintro rfl s' count hs hpc' k hk
      obtain ⟨hpc, hz⟩ := (issues_poll conv h).mp ⟨s', hs, hpc'⟩
      have hcontrol := h.control
      rw [hpc] at hcontrol
      rcases holdsReport_tracked h hk with hbit | hfailed
      · rw [hcontrol.2 hz k List.not_mem_nil] at hbit
        cases hbit
      · exact hresumable.failed rfl count hpc hz k hfailed hk

end Waits

theorem poll_prompt_iff {F : Type} (conv : Conversions F) (accelerometer gyro : Bool)
    (akm : BitVec 32) (cells : Driver → Memory InputEvent) (labels : List Label)
    (s : SensorsPollContext F) :
    Run (step conv) (Prompt conv) (.new conv accelerometer gyro akm cells) labels s ↔
      Run (step conv) (Resumable conv) (.new conv accelerometer gyro akm cells) labels s := by
  have hnew := new_inv conv accelerometer gyro akm cells
  constructor
  · intro hr
    exact hr.transfer Inv (fun u l u' hu hl hs => ⟨(prompt_iff hu l).mp hl, step_inv hu hs⟩) hnew
  · intro hr
    exact hr.transfer Inv (fun u l u' hu hl hs => ⟨(prompt_iff hu l).mpr hl, step_inv hu hs⟩) hnew

def startedContext : SensorsPollContext ℤ :=
  .new wholeConversions true false 0 (fun _ _ => ⟨⟨0, 0⟩, 0, 0, 0⟩)

def synEvent : InputEvent := ⟨⟨1, 0⟩, EV_SYN, 0, 0⟩

def oneOfTwo : List Label :=
  [.arrive .acceleration [synEvent, synEvent], .pollEvents 1, .advance, .advance, .advance,
    .advance, .advance, .pollReturns false, .advance, .readReturns 2, .advance, .pollEvents 1]

def withheldContext : SensorsPollContext ℤ :=
  (final (step wholeConversions) (fun _ _ => True) startedContext oneOfTwo).getD startedContext

/-- The next call reads from the accelerometer again, before it hands out the
second report. -/
theorem second_report_withheld :
    Run (step wholeConversions) (fun _ _ => True) startedContext oneOfTwo withheldContext ∧
      ¬ Prompt wholeConversions withheldContext .advance := by
  constructor
  · exact final_run rfl
  · intro h
    have hread : ∃ s', step wholeConversions withheldContext .advance = some s' ∧
        s'.pc = .reading .acceleration [.light, .akm, .gyro] 1 0 := ⟨_, rfl, rfl⟩
    obtain ⟨s', hs, hpc⟩ := hread
    exact h.reads rfl s' _ _ _ _ hs hpc rfl .acceleration (List.cons_ne_nil _ _)

end Wingray.SensorWait
