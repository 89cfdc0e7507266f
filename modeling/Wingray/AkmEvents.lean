import Wingray.InputEvents
import Wingray.StreamMachine

/-!
# Events of the compass driver

The driver collects relative events in one pending event for each of its three
sensors and hands these out at a synchronization event. The reference is a
machine that answers every synchronization event at once.
-/

set_option autoImplicit false

namespace Wingray.AkmEvents
open Wingray.CellMemory Wingray.BoundedQueue Wingray.SensorReader Wingray.StreamMachine
open Wingray.GuardedRun Wingray.InputEvents

def SENSOR_STATE_MASK : BitVec 32 := 0x7FFF

abbrev numSensors : ℕ := 3
def Accelerometer : Fin numSensors := ⟨0, by decide⟩
def MagneticField : Fin numSensors := ⟨1, by decide⟩
def Orientation : Fin numSensors := ⟨2, by decide⟩

structure AkmSensor (F : Type) where
  mEnabled : BitVec 32
  mPendingMask : BitVec 32
  mInputReader : InputEventCircularReader InputEvent
  mPendingEvents : Fin numSensors → SensorsEvent F

variable {F : Type}

def numEvents : ℕ := 32

def firstSample (conv : Conversions F) (j : Fin numSensors) : Sample F where
  version := SENSORS_EVENT_SIZE
  sensor := if j = Accelerometer then ID_A else if j = MagneticField then ID_M else ID_O
  type :=
    if j = Accelerometer then SENSOR_TYPE_ACCELEROMETER
    else if j = MagneticField then SENSOR_TYPE_MAGNETIC_FIELD
    else SENSOR_TYPE_ORIENTATION
  vec := ⟨conv.zero, conv.zero, conv.zero, SENSOR_STATUS_ACCURACY_HIGH⟩

/-- The constructor, with what the device said to be enabled already. -/
def AkmSensor.new (conv : Conversions F) (mEnabled : BitVec 32) (cells : Memory InputEvent) :
    AkmSensor F where
  mEnabled := mEnabled
  mPendingMask := 0
  mInputReader := .new cells numEvents
  mPendingEvents := fun j => { firstSample conv j with timestamp := 0 }

/-! ## Processing one event -/

/-- The cases of `processEvent`: which sensor an event code belongs to and
what its value does to the pending reading of that sensor. -/
def updates (conv : Conversions F) (code : ℕ) (value : BitVec 32) :
    Option (Fin numSensors × (SensorsVec F → SensorsVec F)) :=
  if code = EVENT_TYPE_ACCEL_X then
    some (Accelerometer, fun v => { v with x := conv.scale value conv.CONVERT_A })
  else if code = EVENT_TYPE_ACCEL_Y then
    some (Accelerometer, fun v => { v with y := conv.scale value conv.CONVERT_A })
  else if code = EVENT_TYPE_ACCEL_Z then
    some (Accelerometer, fun v => { v with z := conv.scale value conv.CONVERT_A })
  else if code = EVENT_TYPE_MAGV_X then
    some (MagneticField, fun v => { v with x := conv.scale value conv.CONVERT_M })
  else if code = EVENT_TYPE_MAGV_Y then
    some (MagneticField, fun v => { v with y := conv.scale value conv.CONVERT_M })
  else if code = EVENT_TYPE_MAGV_Z then
    some (MagneticField, fun v => { v with z := conv.scale value conv.CONVERT_M })
  else if code = EVENT_TYPE_YAW then
    some (Orientation, fun v => { v with x := conv.scale value conv.CONVERT_O })
  else if code = EVENT_TYPE_PITCH then
    some (Orientation, fun v => { v with y := conv.scale value conv.CONVERT_O })
  else if code = EVENT_TYPE_ROLL then
    some (Orientation, fun v => { v with z := conv.scale value (conv.neg conv.CONVERT_O) })
  else if code = EVENT_TYPE_ORIENT_STATUS then
    some (Orientation, fun v => { v with status := (value &&& SENSOR_STATE_MASK).setWidth 8 })
  else none

def bit (j : Fin numSensors) : BitVec 32 := BitVec.twoPow 32 j

namespace AkmSensor

def processEvent (conv : Conversions F) (s : AkmSensor F) (code : ℕ) (value : BitVec 32) :
    AkmSensor F :=
  match updates conv code value with
  | none => s
  | some (j, f) => { s with
      mPendingMask := s.mPendingMask ||| bit j
      mPendingEvents := Function.update s.mPendingEvents j
        { s.mPendingEvents j with vec := f (s.mPendingEvents j).vec } }

/-! ## Reading events -/

def settle (s : AkmSensor F) (time : ℤ) (j : Fin numSensors) : AkmSensor F := { s with
  mPendingMask := s.mPendingMask &&& ~~~bit j
  mPendingEvents := Function.update s.mPendingEvents j
    { s.mPendingEvents j with timestamp := time } }

def flush (time : ℤ) : List (Fin numSensors) → AkmSensor F → ℕ →
    List (SensorsEvent F) × ℕ × AkmSensor F
  | [], s, count => ([], count, s)
  | j::js, s, count =>
    if count ≠ 0 ∧ s.mPendingMask ≠ 0 then
      if s.mPendingMask.getLsbD j then
        let s := s.settle time j
        if s.mEnabled.getLsbD j then
          let rest := flush time js s (count-1)
          (s.mPendingEvents j::rest.1, rest.2)
        else flush time js s count
      else flush time js s count
    else ([], count, s)

def next (s : AkmSensor F) : AkmSensor F := { s with mInputReader := s.mInputReader.next }

def sensors : List (Fin numSensors) := List.finRange numSensors

def readLoop (conv : Conversions F) : ℕ → AkmSensor F → ℕ →
    Option (List (SensorsEvent F) × AkmSensor F)
  | 0, _, _ => none
  | fuel+1, s, count =>
    if count ≠ 0 ∧ s.mInputReader.readEvent.1 ≠ 0 then
      let event := s.mInputReader.readEvent.2
      if event.type = EV_REL then
        readLoop conv fuel (s.processEvent conv event.code event.value).next count
      else if event.type = EV_SYN then
        let flushed := flush (timevalToNano event.time) sensors s count
        let s := flushed.2.2
        let s := if s.mPendingMask = 0 then s.next else s
        (readLoop conv fuel s flushed.2.1).map (fun x => (flushed.1 ++ x.1, x.2))
      else readLoop conv fuel s.next count
    else some ([], s)

def readEvents (conv : Conversions F) (s : AkmSensor F) (count : ℤ)
    (nread : ReadOutcome InputEvent) : Option (ℤ × List (SensorsEvent F) × AkmSensor F) :=
  if count < 1 then some (-EINVAL, [], s)
  else
    let n := (s.mInputReader.fill nread).1
    let s := { s with mInputReader := (s.mInputReader.fill nread).2 }
    if n < 0 then some (n, [], s)
    else (readLoop conv (available s.mInputReader+1) s count.toNat).map
      (fun x => (x.1.length, x.1, x.2))

end AkmSensor
open AkmSensor

/-! ## The reference -/

/-- The current reading of each sensor, and which were touched since the last
synchronization event. -/
structure Readings (F : Type) where
  samples : Fin numSensors → Sample F
  touched : Fin numSensors → Bool

def due (mEnabled : BitVec 32) (time : ℤ) (js : List (Fin numSensors)) (r : Readings F) :
    List (SensorsEvent F) :=
  (js.filter (fun j => r.touched j && mEnabled.getLsbD j)).map
    (fun j => { r.samples j with timestamp := time })

def Readings.untouched (r : Readings F) : Readings F := { r with touched := fun _ => false }

def Readings.touch (conv : Conversions F) (r : Readings F) (code : ℕ) (value : BitVec 32) :
    Readings F :=
  match updates conv code value with
  | none => r
  | some (j, f) =>
    { samples := Function.update r.samples j { r.samples j with vec := f (r.samples j).vec }
      touched := Function.update r.touched j true }

def Readings.first (conv : Conversions F) : Readings F where
  samples := firstSample conv
  touched := fun _ => false

def reference (conv : Conversions F) (mEnabled : BitVec 32) :
    Machine (Readings F) InputEvent (SensorsEvent F) where
  step := fun r e =>
    if e.type = EV_REL then ([], r.touch conv e.code e.value)
    else if e.type = EV_SYN then (due mEnabled (timevalToNano e.time) sensors r, r.untouched)
    else ([], r)

def readings (s : AkmSensor F) : Readings F where
  samples := fun j => (s.mPendingEvents j).toSample
  touched := fun j => s.mPendingMask.getLsbD j

/-! ## The pending mask -/

def Masked (s : AkmSensor F) : Prop := ∀ i, numSensors ≤ i → s.mPendingMask.getLsbD i = false

theorem bit_getLsbD (j : Fin numSensors) (i : ℕ) : (bit j).getLsbD i = decide ((j : ℕ) = i) := by
  have hj : (j : ℕ) < 32 := j.isLt.trans (by decide)
  rw [bit, BitVec.getLsbD_twoPow]
  simp [hj]

theorem new_masked (conv : Conversions F) (mEnabled : BitVec 32) (cells : Memory InputEvent) :
    Masked (AkmSensor.new conv mEnabled cells) :=
  fun _ _ => BitVec.getLsbD_zero

theorem mask_zero_iff {s : AkmSensor F} (h : Masked s) :
    s.mPendingMask = 0 ↔ ∀ j, (readings s).touched j = false := by
  constructor
  · intro hz j
    simp only [readings, hz]
    exact BitVec.getLsbD_zero
  · intro hall
    apply BitVec.eq_of_getLsbD_eq
    intro i _
    rw [BitVec.ofNat_eq_ofNat, BitVec.getLsbD_zero]
    by_cases hi : i < numSensors
    · exact hall ⟨i, hi⟩
    · exact h i (not_lt.mp hi)

theorem processEvent_masked {s : AkmSensor F} (h : Masked s) (conv : Conversions F) (code : ℕ)
    (value : BitVec 32) : Masked (s.processEvent conv code value) := by
  intro i hi
  simp only [processEvent]
  rcases updates conv code value with _ | ⟨j, f⟩
  · exact h i hi
  · have hj : (j : ℕ) ≠ i := (j.isLt.trans_le hi).ne
    simp only [BitVec.getLsbD_or, h i hi, bit_getLsbD, hj, decide_false, Bool.or_self]

theorem processEvent_readings (s : AkmSensor F) (conv : Conversions F) (code : ℕ)
    (value : BitVec 32) :
    readings (s.processEvent conv code value) = (readings s).touch conv code value := by
  simp only [processEvent, Readings.touch]
  rcases updates conv code value with _ | ⟨j, f⟩
  · rfl
  · simp only [readings, Readings.mk.injEq]
    constructor
    · funext k
      by_cases hk : k = j
      · subst hk
        simp
      · simp [hk]
    · funext k
      by_cases hk : k = j
      · subst hk
        simp [bit_getLsbD]
      · have hne : (j : ℕ) ≠ k := fun h => hk (Fin.ext h.symm)
        simp [bit_getLsbD, hk, hne]

section Settle

variable (s : AkmSensor F) (time : ℤ) (j : Fin numSensors)

theorem settle_masked (h : Masked s) : Masked (s.settle time j) := by
  intro i hi
  simp only [settle, BitVec.getLsbD_and, h i hi, Bool.false_and]

theorem settle_readings : readings (s.settle time j) =
    { readings s with touched := Function.update (readings s).touched j false } := by
  simp only [readings, settle, Readings.mk.injEq]
  constructor
  · funext k
    by_cases hk : k = j
    · subst hk
      simp
    · simp [hk]
  · funext k
    have hk32 : (k : ℕ) < 32 := k.isLt.trans (by decide)
    by_cases hk : k = j
    · subst hk
      simp [bit_getLsbD]
    · have hne : (j : ℕ) ≠ k := fun h => hk (Fin.ext h.symm)
      simp only [BitVec.getLsbD_and, BitVec.getLsbD_not, bit_getLsbD, hne, hk32, decide_false,
        decide_true, Bool.not_false, Bool.and_true, Function.update_of_ne hk]

theorem settle_event : (s.settle time j).mPendingEvents j =
    { (readings s).samples j with timestamp := time } := by
  simp [settle, readings]

end Settle

/-! ## One synchronization event -/

section Due

variable {mEnabled : BitVec 32} {time : ℤ} {j : Fin numSensors} {js : List (Fin numSensors)}
  {r : Readings F}

theorem due_take (ht : r.touched j = true) (he : mEnabled.getLsbD j = true) :
    due mEnabled time (j::js) r =
      { r.samples j with timestamp := time }::due mEnabled time js r := by
  simp [due, ht, he]

theorem due_untouched (ht : r.touched j = false) :
    due mEnabled time (j::js) r = due mEnabled time js r := by
  simp [due, ht]

theorem due_disabled (he : mEnabled.getLsbD j = false) :
    due mEnabled time (j::js) r = due mEnabled time js r := by
  simp [due, he]

theorem due_elsewhere (mEnabled : BitVec 32) (time : ℤ) (r : Readings F) (hj : j ∉ js) :
    due mEnabled time js { r with touched := Function.update r.touched j false } =
      due mEnabled time js r := by
  simp only [due]
  congr 1
  apply List.filter_congr
  intro k hk
  have hne : k ≠ j := fun h => hj (h ▸ hk)
  rw [Function.update_of_ne hne]

theorem due_none (h : ∀ k ∈ js, r.touched k = false) : due mEnabled time js r = [] := by
  simp only [due, List.map_eq_nil_iff, List.filter_eq_nil_iff]
  intro k hk
  simp [h k hk]

end Due

/-- A flush keeps everything but touched bits, and what it hands out and what
is still due make up what was due. -/
structure Flushed (time : ℤ) (js : List (Fin numSensors)) (s : AkmSensor F) (count : ℕ)
    (x : List (SensorsEvent F) × ℕ × AkmSensor F) : Prop where
  masked : Masked x.2.2
  mEnabled : x.2.2.mEnabled = s.mEnabled
  mInputReader : x.2.2.mInputReader = s.mInputReader
  samples : (readings x.2.2).samples = (readings s).samples
  shrinks : ∀ k, (readings s).touched k = false → (readings x.2.2).touched k = false
  due : due s.mEnabled time js (readings s) = x.1 ++ due s.mEnabled time js (readings x.2.2)
  room : x.1.length+x.2.1 = count
  drained : x.2.1 ≠ 0 → ∀ k ∈ js, (readings x.2.2).touched k = false

section Flushes

variable {time : ℤ} {j : Fin numSensors} {js : List (Fin numSensors)} {s : AkmSensor F} {count : ℕ}
  {x : List (SensorsEvent F) × ℕ × AkmSensor F}

theorem flushed_stay (hm : Masked s) (h : ¬(count ≠ 0 ∧ s.mPendingMask ≠ 0)) :
    Flushed time js s count ([], count, s) := by
  refine ⟨hm, rfl, rfl, rfl, fun _ h => h, rfl, Nat.zero_add count, ?_⟩
  intro hcount k _
  by_contra hk
  apply h
  refine ⟨hcount, ?_⟩
  intro hz
  exact hk ((mask_zero_iff hm).mp hz k)

theorem Flushed.skip (h : Flushed time js s count x) (ht : (readings s).touched j = false) :
    Flushed time (j::js) s count x where
  masked := h.masked
  mEnabled := h.mEnabled
  mInputReader := h.mInputReader
  samples := h.samples
  shrinks := h.shrinks
  due := by
    rw [due_untouched ht, due_untouched (h.shrinks j ht)]
    exact h.due
  room := h.room
  drained := by
    intro hroom k hk
    rcases List.mem_cons.mp hk with rfl | hk
    · exact h.shrinks k ht
    · exact h.drained hroom k hk

theorem Flushed.settled (h : Flushed time js (s.settle time j) count x)
    (out : List (SensorsEvent F)) (hdue : AkmEvents.due s.mEnabled time js (readings s) =
      out ++ AkmEvents.due s.mEnabled time js (readings (s.settle time j))) :
    Flushed time js s (out.length+count) (out ++ x.1, x.2) where
  masked := h.masked
  mEnabled := h.mEnabled
  mInputReader := h.mInputReader
  samples := by
    rw [h.samples, settle_readings]
  shrinks := by
    intro k hk
    apply h.shrinks
    rw [settle_readings]
    by_cases hkj : k = j <;> simp [hkj, hk]
  due := by
    have hrest := h.due
    rw [hdue, List.append_assoc]
    exact congrArg (out ++ ·) hrest
  room := by
    rw [List.length_append, Nat.add_assoc, h.room]
  drained := h.drained

end Flushes

theorem flush_flushed (time : ℤ) (js : List (Fin numSensors)) (hn : js.Nodup) (s : AkmSensor F)
    (hm : Masked s) (count : ℕ) : Flushed time js s count (flush time js s count) := by
  induction js generalizing s count with
  | nil => exact ⟨hm, rfl, rfl, rfl, fun _ h => h, rfl, by simp [flush], by simp⟩
  | cons j js ih =>
    obtain ⟨hj, hjs⟩ := List.nodup_cons.mp hn
    have hrest := due_elsewhere s.mEnabled time (readings s) hj
    have hsettled : (readings (s.settle time j)).touched j = false := by simp [settle_readings]
    have henabled : (s.settle time j).mEnabled = s.mEnabled := rfl
    simp only [flush, henabled]
    split_ifs with hgo ht he
    · have h := (ih hjs (s.settle time j) (settle_masked s time j hm) (count-1)).skip hsettled
      have hout := h.settled [(s.settle time j).mPendingEvents j] (by
        rw [due_take ht he, due_untouched hsettled, settle_event, settle_readings, hrest]
        rfl)
      rwa [List.length_singleton, Nat.add_sub_cancel' (Nat.one_le_iff_ne_zero.mpr hgo.1)] at hout
    · have h := (ih hjs (s.settle time j) (settle_masked s time j hm) count).skip hsettled
      have hout := h.settled [] (by
        rw [due_disabled (Bool.eq_false_iff.mpr he), due_untouched hsettled, settle_readings, hrest]
        rfl)
      rwa [List.length_nil, Nat.zero_add] at hout
    · exact (ih hjs s hm count).skip (Bool.eq_false_iff.mpr ht)
    · exact flushed_stay hm hgo

/-! ## The loop -/

structure Holds (s : AkmSensor F) (q : Queue InputEvent numEvents) : Prop where
  represents : Represents s.mInputReader q
  masked : Masked s

/-- Handing out `out` leads from one state of driver and ring to another as
the reference has it. -/
structure Serves (conv : Conversions F) (s : AkmSensor F) (q : Queue InputEvent numEvents)
    (out : List (SensorsEvent F)) (s' : AkmSensor F) (q' : Queue InputEvent numEvents) : Prop where
  holds : Holds s' q'
  mEnabled : s'.mEnabled = s.mEnabled
  yields : (reference conv s.mEnabled).Yields (readings s) q.unread out (readings s') q'.unread

section Loop

variable {conv : Conversions F} {s s' s'' : AkmSensor F} {q q' q'' : Queue InputEvent numEvents}
  {out out' : List (SensorsEvent F)} {count : ℕ}

theorem serves_refl (conv : Conversions F) (h : Holds s q) : Serves conv s q [] s q :=
  ⟨h, rfl, yields_refl _ _ _⟩

theorem Serves.trans (h : Serves conv s q out s' q') (h' : Serves conv s' q' out' s'' q'') :
    Serves conv s q (out ++ out') s'' q'' := by
  refine ⟨h'.holds, h'.mEnabled.trans h.mEnabled, ?_⟩
  have hy := h'.yields
  rw [h.mEnabled] at hy
  exact h.yields.trans hy

variable {e : InputEvent}

theorem rel_serves (conv : Conversions F) (h : Holds s q) (he : e.type = EV_REL)
    (hu : q.unread = e::q'.unread) (hq : Represents s.mInputReader.next q') :
    Serves conv s q [] (s.processEvent conv e.code e.value).next q' := by
  have hreader : (s.processEvent conv e.code e.value).mInputReader = s.mInputReader := by
    simp only [processEvent]
    rcases updates conv e.code e.value with _ | ⟨j, f⟩ <;> rfl
  have henabled : (s.processEvent conv e.code e.value).mEnabled = s.mEnabled := by
    simp only [processEvent]
    rcases updates conv e.code e.value with _ | ⟨j, f⟩ <;> rfl
  refine ⟨⟨?_, processEvent_masked h.masked conv _ _⟩, henabled, ?_⟩
  · simp only [AkmSensor.next, hreader]
    exact hq
  · have hstep : (reference conv s.mEnabled).step (readings s) e =
        ([], (readings s).touch conv e.code e.value) := if_pos he
    have hy := yields_step (reference conv s.mEnabled) (readings s) e q'.unread
    rw [hstep, ← hu, ← processEvent_readings] at hy
    exact hy

theorem other_serves (conv : Conversions F) (h : Holds s q) (hrel : e.type ≠ EV_REL)
    (hsyn : e.type ≠ EV_SYN) (hu : q.unread = e::q'.unread) (hq : Represents s.mInputReader.next q') :
    Serves conv s q [] s.next q' := by
  refine ⟨⟨hq, h.masked⟩, rfl, ?_⟩
  have hstep : (reference conv s.mEnabled).step (readings s) e = ([], readings s) := by
    simp only [reference, if_neg hrel, if_neg hsyn]
  have hy := yields_step (reference conv s.mEnabled) (readings s) e q'.unread
  rw [hstep, ← hu] at hy
  exact hy

theorem syn_step (conv : Conversions F) (s : AkmSensor F) (he : e.type = EV_SYN) :
    (reference conv s.mEnabled).step (readings s) e =
      (due s.mEnabled (timevalToNano e.time) sensors (readings s), (readings s).untouched) := by
  have hrel : e.type ≠ EV_REL := by
    rw [he]
    decide
  simp only [reference, if_neg hrel, if_pos he]

theorem syn_complete (conv : Conversions F) (he : e.type = EV_SYN) (hu : q.unread = e::q'.unread)
    (hq : Represents s.mInputReader.next q') {x : List (SensorsEvent F) × ℕ × AkmSensor F}
    (hx : Flushed (timevalToNano e.time) sensors s count x) (hz : x.2.2.mPendingMask = 0) :
    Serves conv s q x.1 x.2.2.next q' := by
  have huntouched := (mask_zero_iff hx.masked).mp hz
  refine ⟨⟨?_, hx.masked⟩, hx.mEnabled, ?_⟩
  · simp only [AkmSensor.next, hx.mInputReader]
    exact hq
  · have hy := yields_step (reference conv s.mEnabled) (readings s) e q'.unread
    have hreadings : readings x.2.2.next = (readings s).untouched := by
      simp only [Readings.untouched, ← hx.samples]
      exact congrArg (Readings.mk (readings x.2.2).samples) (funext huntouched)
    rw [syn_step conv s he, hx.due, due_none (fun k _ => huntouched k), List.append_nil, ← hu] at hy
    rw [hreadings]
    exact hy

theorem syn_partial (conv : Conversions F) (h : Holds s q) (he : e.type = EV_SYN)
    (hu : q.unread = e::q'.unread)
    {x : List (SensorsEvent F) × ℕ × AkmSensor F}
    (hx : Flushed (timevalToNano e.time) sensors s count x) : Serves conv s q x.1 x.2.2 q := by
  refine ⟨⟨?_, hx.masked⟩, hx.mEnabled, ?_⟩
  · rw [hx.mInputReader]
    exact h.represents
  · intro future
    have hstep := syn_step conv x.2.2 he
    rw [hx.mEnabled] at hstep
    have huntouched : (readings x.2.2).untouched = (readings s).untouched := by
      simp only [Readings.untouched, hx.samples]
    rw [hu, List.cons_append, Machine.output, Machine.output, syn_step conv s he, hstep, hx.due,
      huntouched, List.append_assoc]

theorem readLoop_noRoom (conv : Conversions F) (fuel : ℕ) (s : AkmSensor F) :
    readLoop conv (fuel+1) s 0 = some ([], s) := by
  rw [readLoop, if_neg (fun h => h.1 rfl)]

theorem readLoop_serves (conv : Conversions F) (fuel count : ℕ) (h : Holds s q)
    (hfuel : q.unread.length < fuel) :
    ∃ out s' q', readLoop conv fuel s count = some (out, s') ∧ Serves conv s q out s' q' ∧
      Portion count out q'.unread := by
  induction fuel generalizing s q count with
  | zero => exact absurd hfuel (Nat.not_lt_zero _)
  | succ fuel ih =>
    simp only [readLoop]
    split_ifs with hgo hrel hsyn hz
    · obtain ⟨q₁, hu, hq⟩ := readEvent_unread h.represents hgo.2
      have hs := rel_serves conv h hrel hu hq
      rw [hu, List.length_cons] at hfuel
      obtain ⟨out, s', q', hloop, hserves, hend⟩ := ih count hs.holds (by omega)
      exact ⟨out, s', q', hloop, hs.trans hserves, hend⟩
    · obtain ⟨q₁, hu, hq⟩ := readEvent_unread h.represents hgo.2
      have hx := flush_flushed (timevalToNano s.mInputReader.readEvent.2.time) sensors
        (List.nodup_finRange _) s h.masked count
      have hs := syn_complete conv hsyn hu hq hx hz
      rw [hu, List.length_cons] at hfuel
      obtain ⟨out, s', q', hloop, hserves, hend⟩ := ih _ hs.holds (by omega)
      rw [hloop]
      exact ⟨_, s', q', rfl, hs.trans hserves, hend.append hx.room⟩
    · obtain ⟨q₁, hu, hq⟩ := readEvent_unread h.represents hgo.2
      have hx := flush_flushed (timevalToNano s.mInputReader.readEvent.2.time) sensors
        (List.nodup_finRange _) s h.masked count
      have hs := syn_partial conv h hsyn hu hx
      have hroom := hx.room
      have hfull :
          (flush (timevalToNano s.mInputReader.readEvent.2.time) sensors s count).2.1 = 0 := by
        by_contra hne
        exact hz ((mask_zero_iff hx.masked).mpr (fun j => hx.drained hne j (List.mem_finRange j)))
      obtain ⟨fuel, rfl⟩ : ∃ m, fuel = m+1 := Nat.exists_eq_succ_of_ne_zero (by
        rw [hu, List.length_cons] at hfuel
        omega)
      rw [hfull, readLoop_noRoom]
      refine ⟨_, _, q, rfl, hs.trans (serves_refl conv hs.holds), ?_⟩
      rw [hfull, Nat.add_zero] at hroom
      rw [List.append_nil]
      exact portion_full hroom q.unread
    · obtain ⟨q₁, hu, hq⟩ := readEvent_unread h.represents hgo.2
      have hs := other_serves conv h hrel hsyn hu hq
      rw [hu, List.length_cons] at hfuel
      obtain ⟨out, s', q', hloop, hserves, hend⟩ := ih count hs.holds (by omega)
      exact ⟨out, s', q', hloop, hs.trans hserves, hend⟩
    · refine ⟨[], s, q, rfl, serves_refl conv h, Nat.zero_le _, ?_⟩
      intro hroom
      exact readEvent_none h.represents (fun hr => hgo ⟨Nat.pos_iff_ne_zero.mp hroom, hr⟩)

end Loop

/-! ## Sessions -/

structure Call where
  count : ℤ
  nread : ReadOutcome InputEvent

def Call.reads (c : Call) : Bool :=
  match c.nread with
  | .whole _ => true
  | _ => false

structure Session (F : Type) where
  sensor : AkmSensor F
  delivered : List InputEvent
  returned : List (SensorsEvent F)

def Session.start (conv : Conversions F) (mEnabled : BitVec 32) (cells : Memory InputEvent) :
    Session F where
  sensor := .new conv mEnabled cells
  delivered := []
  returned := []

def step (conv : Conversions F) (s : Session F) (c : Call) : Option (Session F) :=
  (s.sensor.readEvents conv c.count c.nread).map (fun x =>
    { sensor := x.2.2
      delivered := s.delivered ++ s.sensor.mInputReader.accepted c.nread
      returned := s.returned ++ x.2.1 })

def Permitted (s : Session F) (c : Call) : Prop :=
  1 ≤ c.count ∧
    (s.sensor.mInputReader.mFreeSpace ≠ 0 → c.nread.Offered s.sensor.mInputReader.mFreeSpace)

instance (s : Session F) (c : Call) : Decidable (Permitted s c) :=
  inferInstanceAs (Decidable (_ ∧ _))

structure Follows (conv : Conversions F) (mEnabled : BitVec 32) (s : Session F)
    (q : Queue InputEvent numEvents) : Prop where
  holds : Holds s.sensor q
  enabled : s.sensor.mEnabled = mEnabled
  yields : (reference conv mEnabled).Yields (.first conv) s.delivered s.returned
    (readings s.sensor) q.unread

theorem start_follows (conv : Conversions F) (mEnabled : BitVec 32) (cells : Memory InputEvent) :
    Follows conv mEnabled (.start conv mEnabled cells) (Queue.empty InputEvent numEvents) where
  holds := ⟨new_represents cells numEvents (by decide), new_masked conv mEnabled cells⟩
  enabled := rfl
  yields := by
    have hr : readings (AkmSensor.new conv mEnabled cells) = .first conv := by
      simp only [readings, AkmSensor.new, Readings.first, BitVec.ofNat_eq_ofNat,
        BitVec.getLsbD_zero]
    intro future
    rw [Session.start, hr]
    rfl

section Sessions

variable {conv : Conversions F} {mEnabled : BitVec 32} {s s' t : Session F} {c : Call}
  {q : Queue InputEvent numEvents} {calls : List Call}

theorem fill_whole_nonneg (r : InputEventCircularReader InputEvent) (h : c.reads = true) :
    0 ≤ (r.fill c.nread).1 := by
  obtain ⟨count, nread⟩ := c
  cases nread with
  | whole events =>
    simp only [InputEventCircularReader.fill]
    split_ifs <;> exact Int.natCast_nonneg _
  | failed | torn => exact absurd h Bool.false_ne_true

theorem step_follows (h : Follows conv mEnabled s q) (hc : Permitted s c) :
    ∃ s', step conv s c = some s' ∧ ∃ out q', s'.returned = s.returned ++ out ∧
      s'.delivered = s.delivered ++ s.sensor.mInputReader.accepted c.nread ∧
      Follows conv mEnabled s' q' ∧ (c.reads = true → q'.unread = [] ∨ out ≠ []) := by
  obtain ⟨hcount, hoffered⟩ := hc
  obtain ⟨he, hfilled⟩ := fill_represents h.holds.represents c.nread hoffered
  let filled : AkmSensor F :=
    { s.sensor with mInputReader := (s.sensor.mInputReader.fill c.nread).2 }
  let q₁ := q.push (s.sensor.mInputReader.accepted c.nread) he
  have hholds : Holds filled q₁ := ⟨hfilled, h.holds.masked⟩
  have hdelivered := h.yields.deliver (s.sensor.mInputReader.accepted c.nread)
  rw [← q.unread_push _ he] at hdelivered
  have havailable : q₁.unread.length < available filled.mInputReader+1 := by
    rw [available_eq hfilled]
    exact Nat.lt_succ_self _
  by_cases hn : (s.sensor.mInputReader.fill c.nread).1 < 0
  · refine ⟨⟨filled, s.delivered ++ s.sensor.mInputReader.accepted c.nread, s.returned⟩, ?_, [], q₁,
      (List.append_nil _).symm, rfl, ⟨hholds, h.enabled, hdelivered⟩, ?_⟩
    · rw [step, readEvents, if_neg (not_lt.mpr hcount), if_pos hn, Option.map_some, List.append_nil]
    · intro hreads
      exact absurd hn (not_lt.mpr (fill_whole_nonneg _ hreads))
  · obtain ⟨out, sensor, q', hloop, hserves, hend⟩ :=
      readLoop_serves conv _ c.count.toNat hholds havailable
    have hy := hserves.yields
    rw [show filled.mEnabled = mEnabled from h.enabled] at hy
    refine ⟨⟨sensor, s.delivered ++ s.sensor.mInputReader.accepted c.nread, s.returned ++ out⟩, ?_,
      out, q', rfl, rfl, ⟨hserves.holds, hserves.mEnabled.trans h.enabled,
        hdelivered.trans hy⟩, ?_⟩
    · rw [step, readEvents, if_neg (not_lt.mpr hcount), if_neg hn, hloop]
      rfl
    · intro _
      by_cases hout : out = []
      · left
        apply hend.short
        rw [hout, List.length_nil]
        omega
      · exact .inr hout

end Sessions

def wholeConversions : Conversions ℤ where
  zero := 0
  neg := Neg.neg
  scale := fun value factor => value.toInt*factor
  CONVERT_A := 1
  CONVERT_M := 2
  CONVERT_O := 3
  CONVERT_G := 4
  toFloat := BitVec.toInt

end Wingray.AkmEvents
