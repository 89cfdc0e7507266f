import Wingray.InputEvents
import Wingray.StreamMachine

/-!
# Events of the drivers with one sensor

The accelerometer, the light sensor and the gyroscope report their pending
event at every synchronization event. They differ in the events that change
the pending one.
-/

set_option autoImplicit false

namespace Wingray.ReportEvents
open Wingray.CellMemory Wingray.BoundedQueue Wingray.SensorReader Wingray.StreamMachine
open Wingray.InputEvents

variable {F : Type}

structure ReportSensor (F : Type) where
  mEnabled : Bool
  mInputReader : InputEventCircularReader InputEvent
  mPendingEvent : SensorsEvent F

abbrev Update (F : Type) := InputEvent → SensorsVec F → SensorsVec F

namespace ReportSensor

def next (s : ReportSensor F) : ReportSensor F := { s with mInputReader := s.mInputReader.next }

def stamp (s : ReportSensor F) (time : ℤ) : ReportSensor F := { s with
  mPendingEvent := { s.mPendingEvent with timestamp := time } }

def process (update : Update F) (s : ReportSensor F) (e : InputEvent) : ReportSensor F := { s with
  mPendingEvent := { s.mPendingEvent with vec := update e s.mPendingEvent.vec } }

def readLoop (update : Update F) : ℕ → ReportSensor F → ℕ →
    Option (List (SensorsEvent F) × ReportSensor F)
  | 0, _, _ => none
  | fuel+1, s, count =>
    if count ≠ 0 ∧ s.mInputReader.readEvent.1 ≠ 0 then
      let event := s.mInputReader.readEvent.2
      if event.type = EV_SYN then
        let s := s.stamp (timevalToNano event.time)
        if s.mEnabled then
          (readLoop update fuel s.next (count-1)).map (fun x => (s.mPendingEvent::x.1, x.2))
        else readLoop update fuel s.next count
      else readLoop update fuel (s.process update event).next count
    else some ([], s)

def readEvents (update : Update F) (s : ReportSensor F) (count : ℤ)
    (nread : ReadOutcome InputEvent) : Option (ℤ × List (SensorsEvent F) × ReportSensor F) :=
  if count < 1 then some (-EINVAL, [], s)
  else
    let n := (s.mInputReader.fill nread).1
    let s := { s with mInputReader := (s.mInputReader.fill nread).2 }
    if n < 0 then some (n, [], s)
    else (readLoop update (available s.mInputReader+1) s count.toNat).map
      (fun x => (x.1.length, x.1, x.2))

end ReportSensor
open ReportSensor

/-! ## The three drivers -/

def AccelerationSensor.update (conv : Conversions F) : Update F := fun e v =>
  if e.type = EV_REL then
    if e.code = EVENT_TYPE_ACCEL_X then { v with x := conv.scale e.value conv.CONVERT_A }
    else if e.code = EVENT_TYPE_ACCEL_Y then { v with y := conv.scale e.value conv.CONVERT_A }
    else if e.code = EVENT_TYPE_ACCEL_Z then { v with z := conv.scale e.value conv.CONVERT_A }
    else v
  else v

def GyroSensor.update (conv : Conversions F) : Update F := fun e v =>
  if e.type = EV_REL then
    if e.code = EVENT_TYPE_GYRO_P then { v with x := conv.scale e.value conv.CONVERT_G }
    else if e.code = EVENT_TYPE_GYRO_R then { v with y := conv.scale e.value conv.CONVERT_G }
    else if e.code = EVENT_TYPE_GYRO_Y then { v with z := conv.scale e.value conv.CONVERT_G }
    else v
  else v

/-- The light level shares the memory of `x`. -/
def LightSensor.update (conv : Conversions F) : Update F := fun e v =>
  if e.type = EV_MSC then
    if e.code = EVENT_TYPE_LIGHT then { v with x := conv.toFloat e.value } else v
  else v

def ReportSensor.new (conv : Conversions F) (sensor type numEvents : ℕ) (status : BitVec 8)
    (mEnabled : Bool) (cells : Memory InputEvent) : ReportSensor F where
  mEnabled := mEnabled
  mInputReader := .new cells numEvents
  mPendingEvent :=
    { version := SENSORS_EVENT_SIZE
      sensor := sensor
      type := type
      vec := ⟨conv.zero, conv.zero, conv.zero, status⟩
      timestamp := 0 }

def AccelerationSensor.new (conv : Conversions F) : Bool → Memory InputEvent → ReportSensor F :=
  ReportSensor.new conv ID_A SENSOR_TYPE_ACCELEROMETER 32 0

def LightSensor.new (conv : Conversions F) : Memory InputEvent → ReportSensor F :=
  ReportSensor.new conv ID_L SENSOR_TYPE_LIGHT 4 0 false

def GyroSensor.new (conv : Conversions F) : Bool → Memory InputEvent → ReportSensor F :=
  ReportSensor.new conv ID_G SENSOR_TYPE_GYROSCOPE 32 0

/-! ## The reference -/

def reference (update : Update F) (mEnabled : Bool) :
    Machine (Sample F) InputEvent (SensorsEvent F) where
  step := fun sample e =>
    if e.type = EV_SYN then
      (if mEnabled then [{ sample with timestamp := timevalToNano e.time }] else [], sample)
    else ([], { sample with vec := update e sample.vec })

section Loop

variable {update : Update F} {s s' s'' : ReportSensor F} {numEvents : ℕ}
  {q q' q'' : Queue InputEvent numEvents} {out out' : List (SensorsEvent F)} {e : InputEvent}

structure Serves (update : Update F) (s : ReportSensor F) (q : Queue InputEvent numEvents)
    (out : List (SensorsEvent F)) (s' : ReportSensor F) (q' : Queue InputEvent numEvents) :
    Prop where
  represents : Represents s'.mInputReader q'
  enabled : s'.mEnabled = s.mEnabled
  yields : (reference update s.mEnabled).Yields s.mPendingEvent.toSample q.unread out
    s'.mPendingEvent.toSample q'.unread

theorem Serves.trans (h : Serves update s q out s' q') (h' : Serves update s' q' out' s'' q'') :
    Serves update s q (out ++ out') s'' q'' := by
  refine ⟨h'.represents, h'.enabled.trans h.enabled, ?_⟩
  have hy := h'.yields
  rw [h.enabled] at hy
  exact h.yields.trans hy

theorem syn_serves (update : Update F) (he : e.type = EV_SYN) (hu : q.unread = e::q'.unread)
    (hq : Represents s.mInputReader.next q') :
    Serves update s q (if s.mEnabled then [(s.stamp (timevalToNano e.time)).mPendingEvent] else [])
      (s.stamp (timevalToNano e.time)).next q' := by
  refine ⟨hq, rfl, ?_⟩
  have hy := yields_step (reference update s.mEnabled) s.mPendingEvent.toSample e q'.unread
  simp only [reference, if_pos he, ← hu] at hy
  exact hy

theorem other_serves (update : Update F) (he : e.type ≠ EV_SYN) (hu : q.unread = e::q'.unread)
    (hq : Represents s.mInputReader.next q') :
    Serves update s q [] (s.process update e).next q' := by
  refine ⟨hq, rfl, ?_⟩
  have hy := yields_step (reference update s.mEnabled) s.mPendingEvent.toSample e q'.unread
  simp only [reference, if_neg he, ← hu] at hy
  exact hy

theorem readLoop_serves (update : Update F) (fuel count : ℕ) (h : Represents s.mInputReader q)
    (hfuel : q.unread.length < fuel) :
    ∃ out s', ∃ q' : Queue InputEvent numEvents, readLoop update fuel s count = some (out, s') ∧
      Serves update s q out s' q' ∧ Portion count out q'.unread := by
  induction fuel generalizing s q count with
  | zero => exact absurd hfuel (Nat.not_lt_zero _)
  | succ fuel ih =>
    simp only [readLoop]
    split_ifs with hgo hsyn henabled
    · obtain ⟨q₁, hu, hq⟩ := readEvent_unread h hgo.2
      have hs := syn_serves update hsyn hu hq
      rw [show s.mEnabled = true from henabled, if_pos rfl] at hs
      rw [hu, List.length_cons] at hfuel
      obtain ⟨out, s', q', hloop, hserves, hend⟩ := ih (count-1) hs.represents (by omega)
      rw [hloop]
      exact ⟨_, s', q', rfl, hs.trans hserves, hend.cons hgo.1 _⟩
    · obtain ⟨q₁, hu, hq⟩ := readEvent_unread h hgo.2
      have hs := syn_serves update hsyn hu hq
      rw [show s.mEnabled = false from Bool.eq_false_iff.mpr henabled,
        if_neg Bool.false_ne_true] at hs
      rw [hu, List.length_cons] at hfuel
      obtain ⟨out, s', q', hloop, hserves, hend⟩ := ih count hs.represents (by omega)
      exact ⟨out, s', q', hloop, hs.trans hserves, hend⟩
    · obtain ⟨q₁, hu, hq⟩ := readEvent_unread h hgo.2
      have hs := other_serves update hsyn hu hq
      rw [hu, List.length_cons] at hfuel
      obtain ⟨out, s', q', hloop, hserves, hend⟩ := ih count hs.represents (by omega)
      exact ⟨out, s', q', hloop, hs.trans hserves, hend⟩
    · refine ⟨[], s, q, rfl, ⟨h, rfl, yields_refl _ _ _⟩, Nat.zero_le _, ?_⟩
      intro hroom
      exact readEvent_none h (fun hr => hgo ⟨Nat.pos_iff_ne_zero.mp hroom, hr⟩)

end Loop

end Wingray.ReportEvents
