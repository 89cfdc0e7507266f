import Wingray.SensorReader

/-!
# Input events and sensor events

What the kernel delivers to the drivers, and what these make of it.
-/

set_option autoImplicit false

namespace Wingray.InputEvents
open Wingray.BoundedQueue Wingray.SensorReader

def EV_SYN : ℕ := 0
def EV_REL : ℕ := 2
def EV_MSC : ℕ := 4

def EVENT_TYPE_ACCEL_X : ℕ := 0
def EVENT_TYPE_ACCEL_Y : ℕ := 1
def EVENT_TYPE_ACCEL_Z : ℕ := 2
def EVENT_TYPE_YAW : ℕ := 3
def EVENT_TYPE_PITCH : ℕ := 4
def EVENT_TYPE_ROLL : ℕ := 5
def EVENT_TYPE_ORIENT_STATUS : ℕ := 6
def EVENT_TYPE_MAGV_X : ℕ := 7
def EVENT_TYPE_MAGV_Y : ℕ := 8
def EVENT_TYPE_MAGV_Z : ℕ := 9
def EVENT_TYPE_LIGHT : ℕ := 3
def EVENT_TYPE_GYRO_P : ℕ := 3
def EVENT_TYPE_GYRO_R : ℕ := 4
def EVENT_TYPE_GYRO_Y : ℕ := 5

def ID_A : ℕ := 0
def ID_M : ℕ := 1
def ID_O : ℕ := 2
def ID_L : ℕ := 5
def ID_G : ℕ := 7

def SENSOR_TYPE_ACCELEROMETER : ℕ := 1
def SENSOR_TYPE_MAGNETIC_FIELD : ℕ := 2
def SENSOR_TYPE_ORIENTATION : ℕ := 3
def SENSOR_TYPE_GYROSCOPE : ℕ := 4
def SENSOR_TYPE_LIGHT : ℕ := 5

structure Timeval where
  tv_sec : ℤ
  tv_usec : ℤ

structure InputEvent where
  time : Timeval
  type : ℕ
  code : ℕ
  value : BitVec 32

def timevalToNano (t : Timeval) : ℤ := t.tv_sec*1000000000+t.tv_usec*1000

/-- The floating point arithmetic and the conversion factors. -/
structure Conversions (F : Type) where
  zero : F
  neg : F → F
  scale : BitVec 32 → F → F
  CONVERT_A : F
  CONVERT_M : F
  CONVERT_O : F
  CONVERT_G : F
  toFloat : BitVec 32 → F

/-- `sensors_vec_t`; azimuth, pitch and roll share the memory of x, y and z. -/
structure SensorsVec (F : Type) where
  x : F
  y : F
  z : F
  status : BitVec 8

structure Sample (F : Type) where
  version : ℕ
  sensor : ℕ
  type : ℕ
  vec : SensorsVec F

structure SensorsEvent (F : Type) extends Sample F where
  timestamp : ℤ

def SENSORS_EVENT_SIZE : ℕ := 104
def SENSOR_STATUS_ACCURACY_HIGH : BitVec 8 := 3

/-! ## The unread events of a ring -/

def available (r : InputEventCircularReader InputEvent) : ℕ :=
  ((r.mBufferEnd : ℤ)-r.mFreeSpace).toNat

def ringEvents (r : InputEventCircularReader InputEvent) : List InputEvent :=
  (List.range (available r)).map (fun i => r.mBuffer (wrap r.mBufferEnd (r.mCurr+i)))

section Ring

variable {numEvents : ℕ} {r : InputEventCircularReader InputEvent} {q : Queue InputEvent numEvents}

theorem available_eq (h : Represents r q) : available r = q.unread.length := by
  have hend := h.mBufferEnd_eq
  have hfree := h.mFreeSpace_eq
  simp only [available]
  omega

theorem ringEvents_eq (h : Represents r q) : ringEvents r = q.unread := by
  rw [ringEvents, available_eq h, h.mBufferEnd_eq]
  apply List.ext_getElem
  · simp
  · intro i _ hi
    simpa using h.holds i hi

theorem readEvent_unread (h : Represents r q) (hr : r.readEvent.1 ≠ 0) :
    ∃ q' : Queue InputEvent numEvents, q.unread = r.readEvent.2::q'.unread ∧
      Represents r.next q' := by
  have hone : r.readEvent.1 = 1 := by
    simp only [InputEventCircularReader.readEvent] at hr ⊢
    split_ifs at hr ⊢ with ha
    · rfl
    · exact absurd rfl hr
  have hu := (readEvent_represents h).mp hone
  obtain ⟨x, xs, hx⟩ := List.exists_cons_of_ne_nil hu
  refine ⟨q.pop hu, ?_, next_represents h hu⟩
  rw [q.unread_pop, hx, List.tail_cons, ← shown_represents h x (by rw [hx]; rfl)]
  rfl

theorem readEvent_none (h : Represents r q) (hr : ¬ r.readEvent.1 ≠ 0) : q.unread = [] := by
  by_contra hu
  have hone := (readEvent_represents h).mpr hu
  exact hr (by rw [hone]; decide)

end Ring

end Wingray.InputEvents
