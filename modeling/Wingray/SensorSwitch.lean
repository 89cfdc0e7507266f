import Mathlib.Tactic

/-!
# Switching the sensors on and off

`activate` hands a request to one of four sensor objects, each of which opens
its control device, issues its enable ioctl and records the outcome. The
orientation sensor needs both the compass and the accelerometer.
-/

set_option autoImplicit false

namespace Wingray.SensorSwitch

def EINVAL : ℤ := 22

def EBADF : ℤ := 9

def ID_A : ℤ := 0
def ID_M : ℤ := 1
def ID_O : ℤ := 2
def ID_L : ℤ := 5
def ID_G : ℤ := 7

inductive Driver
  | acceleration | light | akm | gyro
  deriving DecidableEq

def handleToDriver (handle : ℤ) : Option Driver :=
  if handle = ID_A then some .acceleration
  else if handle = ID_M ∨ handle = ID_O then some .akm
  else if handle = ID_G then some .gyro
  else if handle = ID_L then some .light
  else none

/-! ## The control devices -/

inductive Request
  | KXTF9_IOCTL_SET_ENABLE (flags : ℤ)
  | MAX9635_IOCTL_SET_ENABLE (en : ℤ)
  | ECS_IOCTL_APP_SET_MVFLAG (flags : BitVec 16)
  | ECS_IOCTL_APP_SET_MFLAG (flags : BitVec 16)
  | ECS_IOCTL_APP_SET_DELAY (delay : BitVec 16)
  | L3G4200D_IOCTL_SET_ENABLE (flags : ℤ)
  | uninitialised
  deriving DecidableEq

abbrev Errno := {n : ℕ // 0 < n}

/-- How the drivers answer during one call: `open` gives a descriptor or fails,
an ioctl on an open descriptor succeeds or fails with an errno. -/
structure Answers where
  opened : Driver → Option ℕ
  refused : Request → Option Errno

def openDevice (a : Answers) (d : Driver) (devFd : Option ℕ) : Option ℕ :=
  match devFd with
  | some fd => some fd
  | none => a.opened d

def ioctl (a : Answers) (devFd : Option ℕ) (request : Request) : ℤ :=
  match devFd, a.refused request with
  | none, _ => -EBADF
  | some _, some errno => -(errno.val : ℤ)
  | some _, none => 0

def accepted (a : Answers) (devFd : Option ℕ) (request : Request) : List Request :=
  if ioctl a devFd request = 0 then [request] else []

def flagOf (en : ℤ) : ℤ := if en ≠ 0 then 1 else 0

/-- The code every `enable` shares: open before switching on, issue the
request, record the flag when the driver took it, close after switching off. -/
structure Switch where
  err : ℤ
  devFd : Option ℕ
  flag : ℤ
  requests : List Request

def switchDevice (a : Answers) (d : Driver) (devFd : Option ℕ) (flag flags : ℤ)
    (request : Request) : Switch :=
  let devFd := if flags ≠ 0 then openDevice a d devFd else devFd
  let err := ioctl a devFd request
  { err := err
    devFd := if flags = 0 then none else devFd
    flag := if err = 0 then flags else flag
    requests := accepted a devFd request }

/-! ## The sensor objects -/

structure AccelerationSensor where
  devFd : Option ℕ
  mEnabled : ℤ
  mOrientationEnabled : ℤ

structure LightSensor where
  devFd : Option ℕ
  mEnabled : ℤ

structure AkmSensor where
  devFd : Option ℕ
  mEnabled : BitVec 32
  mDelays : Fin 3 → BitVec 64

structure GyroSensor where
  devFd : Option ℕ
  mEnabled : ℤ

structure Done (σ : Type) where
  err : ℤ
  sensor : σ
  requests : List Request

def AccelerationSensor.enable (s : AccelerationSensor) (a : Answers) (en : ℤ) :
    Done AccelerationSensor :=
  let flags := flagOf en
  if flags ≠ s.mEnabled then
    if s.mOrientationEnabled ≠ 0 ∧ en = 0 then ⟨0, { s with mEnabled := flags }, []⟩
    else
      let r := switchDevice a .acceleration s.devFd s.mEnabled flags (.KXTF9_IOCTL_SET_ENABLE flags)
      ⟨r.err, { s with devFd := r.devFd, mEnabled := r.flag }, r.requests⟩
  else ⟨0, s, []⟩

def AccelerationSensor.enableOrientation (s : AccelerationSensor) (a : Answers) (en : ℤ) :
    Done AccelerationSensor :=
  let flags := flagOf en
  if flags ≠ s.mOrientationEnabled then
    if s.mEnabled ≠ 0 ∧ en = 0 then ⟨0, { s with mOrientationEnabled := flags }, []⟩
    else
      let r := switchDevice a .acceleration s.devFd s.mOrientationEnabled flags
        (.KXTF9_IOCTL_SET_ENABLE flags)
      ⟨r.err, { s with devFd := r.devFd, mOrientationEnabled := r.flag }, r.requests⟩
  else ⟨0, s, []⟩

def LightSensor.enable (s : LightSensor) (a : Answers) (en : ℤ) : Done LightSensor :=
  let en := flagOf en
  if s.mEnabled ≠ en then
    let r := switchDevice a .light s.devFd s.mEnabled en (.MAX9635_IOCTL_SET_ENABLE en)
    ⟨0, { s with devFd := r.devFd, mEnabled := r.flag }, r.requests⟩
  else ⟨0, s, []⟩

def GyroSensor.enable (s : GyroSensor) (a : Answers) (en : ℤ) : Done GyroSensor :=
  let flags := flagOf en
  if flags ≠ s.mEnabled then
    let r := switchDevice a .gyro s.devFd s.mEnabled flags (.L3G4200D_IOCTL_SET_ENABLE flags)
    ⟨r.err, { s with devFd := r.devFd, mEnabled := r.flag }, r.requests⟩
  else ⟨0, s, []⟩

namespace AkmSensor

def Accelerometer : Fin 3 := 0
def MagneticField : Fin 3 := 1
def Orientation : Fin 3 := 2

def what (handle : ℤ) : Option (Fin 3) :=
  if handle = ID_A then some Accelerometer
  else if handle = ID_M then some MagneticField
  else if handle = ID_O then some Orientation
  else none

def bit (k : Fin 3) : BitVec 32 := 1#32 <<< k.val

def wanted (s : AkmSensor) : BitVec 64 :=
  (List.finRange 3).foldl
    (fun wanted i =>
      if s.mEnabled &&& bit i ≠ 0 then
        if wanted < s.mDelays i then wanted else s.mDelays i
      else wanted)
    (BitVec.allOnes 64)

def delay (s : AkmSensor) : BitVec 16 := BitVec.ofInt 16 (s.wanted.toInt.tdiv 1000000)

def updateDelay (s : AkmSensor) (a : Answers) : ℤ × List Request :=
  if s.mEnabled ≠ 0 then
    (ioctl a s.devFd (.ECS_IOCTL_APP_SET_DELAY s.delay),
      accepted a s.devFd (.ECS_IOCTL_APP_SET_DELAY s.delay))
  else (0, [])

def command (k : Fin 3) (flags : BitVec 16) : Request :=
  if k = MagneticField then .ECS_IOCTL_APP_SET_MVFLAG flags
  else if k = Orientation then .ECS_IOCTL_APP_SET_MFLAG flags
  else .uninitialised

def newState (en : ℤ) : BitVec 16 := if en ≠ 0 then 1 else 0

def withBit (mEnabled : BitVec 32) (k : Fin 3) (flags : BitVec 16) : BitVec 32 :=
  (mEnabled &&& ~~~bit k) ||| (flags.setWidth 32 <<< k.val)

def switchBit (s : AkmSensor) (a : Answers) (k : Fin 3) (en : ℤ) : Done AkmSensor :=
  let s := if s.mEnabled = 0 then { s with devFd := openDevice a .akm s.devFd } else s
  let request := command k (newState en)
  let err := ioctl a s.devFd request
  let s' := if err = 0 then { s with mEnabled := withBit s.mEnabled k (newState en) } else s
  { err := err
    sensor := if s'.mEnabled = 0 then { s' with devFd := none } else s'
    requests := accepted a s.devFd request ++ (if err = 0 then (s'.updateDelay a).2 else []) }

def enable (s : AkmSensor) (a : Answers) (handle en : ℤ) : Done AkmSensor :=
  match what handle with
  | none => ⟨-EINVAL, s, []⟩
  | some k =>
    if (newState en).setWidth 32 <<< k.val ≠ s.mEnabled &&& bit k then switchBit s a k en
    else ⟨0, s, []⟩

end AkmSensor

/-! ## The poll context -/

structure SensorsPollContext where
  acceleration : AccelerationSensor
  light : LightSensor
  akm : AkmSensor
  gyro : GyroSensor
  wakeMessages : ℕ
  requests : List Request

inductive Query
  | KXTF9_IOCTL_GET_ENABLE
  | ECS_IOCTL_APP_GET_MVFLAG
  | ECS_IOCTL_APP_GET_MFLAG
  | L3G4200D_IOCTL_GET_ENABLE

structure Probe where
  opened : Driver → Option ℕ
  reported : Query → Option ℤ

def Probe.on (p : Probe) (d : Driver) (q : Query) : Bool :=
  (p.opened d).isSome && (p.reported q).any (fun flags => flags ≠ 0)

def AccelerationSensor.new (p : Probe) : AccelerationSensor where
  devFd := if p.on .acceleration .KXTF9_IOCTL_GET_ENABLE then p.opened .acceleration else none
  mEnabled := if p.on .acceleration .KXTF9_IOCTL_GET_ENABLE then 1 else 0
  mOrientationEnabled := 0

def LightSensor.new : LightSensor := ⟨none, 0⟩

def AkmSensor.new (p : Probe) : AkmSensor :=
  let mEnabled :=
    (if p.on .akm .ECS_IOCTL_APP_GET_MVFLAG then AkmSensor.bit AkmSensor.MagneticField else 0) |||
    (if p.on .akm .ECS_IOCTL_APP_GET_MFLAG then AkmSensor.bit AkmSensor.Orientation else 0)
  { devFd := if mEnabled = 0 then none else p.opened .akm
    mEnabled := mEnabled
    mDelays := fun _ => 200000000 }

def GyroSensor.new (p : Probe) : GyroSensor where
  devFd := if p.on .gyro .L3G4200D_IOCTL_GET_ENABLE then p.opened .gyro else none
  mEnabled := if p.on .gyro .L3G4200D_IOCTL_GET_ENABLE then 1 else 0

def SensorsPollContext.new (p : Probe) : SensorsPollContext where
  acceleration := AccelerationSensor.new p
  light := LightSensor.new
  akm := AkmSensor.new p
  gyro := GyroSensor.new p
  wakeMessages := 0
  requests := []

def enableSensor (s : SensorsPollContext) (a : Answers) (d : Driver) (handle enabled : ℤ) :
    ℤ × SensorsPollContext :=
  match d with
  | .acceleration =>
    let r := s.acceleration.enable a enabled
    (r.err, { s with acceleration := r.sensor, requests := s.requests ++ r.requests })
  | .light =>
    let r := s.light.enable a enabled
    (r.err, { s with light := r.sensor, requests := s.requests ++ r.requests })
  | .akm =>
    let r := s.akm.enable a handle enabled
    (r.err, { s with akm := r.sensor, requests := s.requests ++ r.requests })
  | .gyro =>
    let r := s.gyro.enable a enabled
    (r.err, { s with gyro := r.sensor, requests := s.requests ++ r.requests })

def enableOrientation (s : SensorsPollContext) (a : Answers) (enabled : ℤ) :
    ℤ × SensorsPollContext :=
  let r := s.acceleration.enableOrientation a enabled
  (r.err, { s with acceleration := r.sensor, requests := s.requests ++ r.requests })

def activate (s : SensorsPollContext) (a : Answers) (handle enabled : ℤ) :
    ℤ × SensorsPollContext :=
  match handleToDriver handle with
  | none => (-EINVAL, s)
  | some d =>
    let r := enableSensor s a d handle enabled
    let r := if r.1 = 0 ∧ handle = ID_O then enableOrientation r.2 a enabled else r
    if enabled ≠ 0 ∧ r.1 = 0 then (r.1, { r.2 with wakeMessages := r.2.wakeMessages+1 }) else r

/-! ## What one switch does -/

namespace AkmSensor

theorem bit_getLsbD (k : Fin 3) (i : ℕ) : (bit k).getLsbD i = decide (i = k.val) := by
  simp only [bit]
  have := k.isLt
  rw [BitVec.getLsbD_shiftLeft, BitVec.getLsbD_one]
  by_cases hi : i = k.val
  · simp [hi]; omega
  · simp [hi]; omega

theorem newState_getLsbD (en : ℤ) (k : Fin 3) (i : ℕ) :
    ((newState en).setWidth 32 <<< k.val).getLsbD i = (decide (i = k.val) && decide (en ≠ 0)) := by
  have hk := k.isLt
  simp only [newState]
  by_cases he : en = 0
  · simp [he]
  · have hone : (BitVec.setWidth 32 (1 : BitVec 16)) = 1#32 := by decide
    rw [if_pos he, hone]
    have := bit_getLsbD k i
    simp only [bit] at this
    simp [this, he]

theorem stored_iff (m : BitVec 32) (k : Fin 3) (en : ℤ) :
    (newState en).setWidth 32 <<< k.val = m &&& bit k ↔ m.getLsbD k.val = decide (en ≠ 0) := by
  constructor
  · intro h
    have hk := congrArg (fun v => v.getLsbD k.val) h
    simp only [newState_getLsbD, BitVec.getLsbD_and, bit_getLsbD] at hk
    simpa using hk.symm
  · intro h
    apply BitVec.eq_of_getLsbD_eq
    intro i hi
    rw [newState_getLsbD, BitVec.getLsbD_and, bit_getLsbD]
    by_cases hik : i = k.val
    · simp [hik, h]
    · simp [hik]

theorem withBit_getLsbD (m : BitVec 32) (k : Fin 3) (en : ℤ) (i : ℕ) :
    (withBit m k (newState en)).getLsbD i =
      if i = k.val then decide (en ≠ 0) else m.getLsbD i := by
  have hk := k.isLt
  simp only [withBit]
  rw [BitVec.getLsbD_or, BitVec.getLsbD_and, BitVec.getLsbD_not, bit_getLsbD, newState_getLsbD]
  by_cases hik : i = k.val
  · simp [hik]
  · simp [hik]
    intro h
    exact BitVec.lt_of_getLsbD h

def controlFd (s : AkmSensor) (a : Answers) : Option ℕ :=
  if s.mEnabled = 0 then openDevice a .akm s.devFd else s.devFd

theorem switchBit_err (s : AkmSensor) (a : Answers) (k : Fin 3) (en : ℤ) :
    (s.switchBit a k en).err = ioctl a (s.controlFd a) (command k (newState en)) := by
  simp only [switchBit, controlFd]
  split_ifs <;> rfl

theorem switchBit_mEnabled (s : AkmSensor) (a : Answers) (k : Fin 3) (en : ℤ) :
    (s.switchBit a k en).sensor.mEnabled =
      if (s.switchBit a k en).err = 0 then withBit s.mEnabled k (newState en)
      else s.mEnabled := by
  rw [switchBit_err]
  simp only [switchBit, controlFd]
  by_cases hm : s.mEnabled = 0
  · simp only [if_pos hm]
    split_ifs <;> rfl
  · simp only [if_neg hm]
    split_ifs <;> rfl

theorem enable_eq (s : AkmSensor) (a : Answers) (handle en : ℤ) (k : Fin 3)
    (hk : what handle = some k) : s.enable a handle en =
      if s.mEnabled.getLsbD k.val = decide (en ≠ 0) then ⟨0, s, []⟩ else s.switchBit a k en := by
  simp only [enable]
  rw [hk]
  simp only [ne_eq, stored_iff, ite_not]

end AkmSensor

def Refused (a : Answers) (d : Driver) (devFd : Option ℕ) (flags : ℤ) (request : Request) :
    Prop :=
  ioctl a (if flags ≠ 0 then openDevice a d devFd else devFd) request ≠ 0

theorem switchDevice_taken (a : Answers) (d : Driver) (devFd : Option ℕ) (flag flags : ℤ)
    (request : Request) (h : (switchDevice a d devFd flag flags request).err = 0) :
    (switchDevice a d devFd flag flags request).flag = flags := if_pos h

theorem switchDevice_kept (a : Answers) (d : Driver) (devFd : Option ℕ) (flag flags : ℤ)
    (request : Request) (h : (switchDevice a d devFd flag flags request).err ≠ 0) :
    (switchDevice a d devFd flag flags request).flag = flag := if_neg h

theorem acceleration_enable_sound (s : AccelerationSensor) (a : Answers) (en : ℤ) :
    ((s.enable a en).err = 0 → (s.enable a en).sensor.mEnabled = flagOf en) ∧
    ((s.enable a en).err ≠ 0 → (s.enable a en).sensor.mEnabled = s.mEnabled) ∧
    (s.enable a en).sensor.mOrientationEnabled = s.mOrientationEnabled := by
  simp only [AccelerationSensor.enable]
  by_cases hf : flagOf en ≠ s.mEnabled
  · by_cases ho : s.mOrientationEnabled ≠ 0 ∧ en = 0
    · simp only [if_pos hf, if_pos ho]
      exact ⟨fun _ => trivial, fun h => absurd rfl h, trivial⟩
    · simp only [if_pos hf, if_neg ho]
      exact ⟨switchDevice_taken _ _ _ _ _ _, switchDevice_kept _ _ _ _ _ _, trivial⟩
  · simp only [if_neg hf]
    exact ⟨fun _ => (not_not.mp hf).symm, fun _ => trivial, trivial⟩

theorem acceleration_enableOrientation_sound (s : AccelerationSensor) (a : Answers) (en : ℤ) :
    ((s.enableOrientation a en).err = 0 →
      (s.enableOrientation a en).sensor.mOrientationEnabled = flagOf en) ∧
    ((s.enableOrientation a en).err ≠ 0 →
      (s.enableOrientation a en).sensor.mOrientationEnabled = s.mOrientationEnabled) ∧
    (s.enableOrientation a en).sensor.mEnabled = s.mEnabled := by
  simp only [AccelerationSensor.enableOrientation]
  by_cases hf : flagOf en ≠ s.mOrientationEnabled
  · by_cases ho : s.mEnabled ≠ 0 ∧ en = 0
    · simp only [if_pos hf, if_pos ho]
      exact ⟨fun _ => trivial, fun h => absurd rfl h, trivial⟩
    · simp only [if_pos hf, if_neg ho]
      exact ⟨switchDevice_taken _ _ _ _ _ _, switchDevice_kept _ _ _ _ _ _, trivial⟩
  · simp only [if_neg hf]
    exact ⟨fun _ => (not_not.mp hf).symm, fun _ => trivial, trivial⟩

theorem gyro_enable_sound (s : GyroSensor) (a : Answers) (en : ℤ) :
    ((s.enable a en).err = 0 → (s.enable a en).sensor.mEnabled = flagOf en) ∧
    ((s.enable a en).err ≠ 0 → (s.enable a en).sensor.mEnabled = s.mEnabled) := by
  simp only [GyroSensor.enable]
  by_cases hf : flagOf en ≠ s.mEnabled
  · simp only [if_pos hf]
    exact ⟨switchDevice_taken _ _ _ _ _ _, switchDevice_kept _ _ _ _ _ _⟩
  · simp only [if_neg hf]
    exact ⟨fun _ => (not_not.mp hf).symm, fun _ => trivial⟩

theorem acceleration_enableOrientation_failed (s : AccelerationSensor) (a : Answers) (en : ℤ) :
    (s.enableOrientation a en).err ≠ 0 ↔
      s.mOrientationEnabled ≠ flagOf en ∧ ¬ (s.mEnabled ≠ 0 ∧ en = 0) ∧
      Refused a .acceleration s.devFd (flagOf en) (.KXTF9_IOCTL_SET_ENABLE (flagOf en)) := by
  simp only [AccelerationSensor.enableOrientation]
  by_cases hf : flagOf en ≠ s.mOrientationEnabled
  · by_cases ho : s.mEnabled ≠ 0 ∧ en = 0
    · simp only [if_pos hf, if_pos ho]
      exact iff_of_false (fun h => h rfl) (fun h => h.2.1 ho)
    · simp only [if_pos hf, if_neg ho]
      exact ⟨fun h => ⟨hf.symm, ho, h⟩, fun h => h.2.2⟩
  · simp only [if_neg hf]
    exact iff_of_false (fun h => h rfl) (fun h => hf h.1.symm)

theorem light_enable_err (s : LightSensor) (a : Answers) (en : ℤ) : (s.enable a en).err = 0 := by
  simp only [LightSensor.enable]
  by_cases hf : s.mEnabled ≠ flagOf en
  · simp only [if_pos hf]
  · simp only [if_neg hf]

theorem light_enable_mEnabled (s : LightSensor) (a : Answers) (en : ℤ) :
    (s.enable a en).sensor.mEnabled = flagOf en ↔
      ¬ (s.mEnabled ≠ flagOf en ∧
        Refused a .light s.devFd (flagOf en) (.MAX9635_IOCTL_SET_ENABLE (flagOf en))) := by
  simp only [LightSensor.enable]
  by_cases hf : s.mEnabled ≠ flagOf en
  · simp only [if_pos hf]
    by_cases hr : Refused a .light s.devFd (flagOf en) (.MAX9635_IOCTL_SET_ENABLE (flagOf en))
    · rw [switchDevice_kept _ _ _ _ _ _ hr]
      exact iff_of_false hf (fun h => h ⟨hf, hr⟩)
    · rw [switchDevice_taken _ _ _ _ _ _ (not_not.mp hr)]
      exact iff_of_true rfl (fun h => hr h.2)
  · simp only [if_neg hf]
    exact iff_of_true (not_not.mp hf) (fun h => hf h.1)

/-! ## The contract of `activate` -/

def Requested (s : SensorsPollContext) (handle enabled : ℤ) : Prop :=
  (handle = ID_A → s.acceleration.mEnabled = flagOf enabled) ∧
  (handle = ID_M → s.akm.mEnabled.getLsbD AkmSensor.MagneticField.val = decide (enabled ≠ 0)) ∧
  (handle = ID_O → s.akm.mEnabled.getLsbD AkmSensor.Orientation.val = decide (enabled ≠ 0) ∧
    s.acceleration.mOrientationEnabled = flagOf enabled) ∧
  (handle = ID_L → s.light.mEnabled = flagOf enabled) ∧
  (handle = ID_G → s.gyro.mEnabled = flagOf enabled)

section Addressed

variable (s : SensorsPollContext) (enabled : ℤ)

@[simp] theorem requested_A :
    Requested s ID_A enabled ↔ s.acceleration.mEnabled = flagOf enabled := by
  simp [Requested, ID_A, ID_M, ID_O, ID_L, ID_G]

@[simp] theorem requested_M : Requested s ID_M enabled ↔
    s.akm.mEnabled.getLsbD AkmSensor.MagneticField.val = decide (enabled ≠ 0) := by
  simp [Requested, ID_A, ID_M, ID_O, ID_L, ID_G]

@[simp] theorem requested_O : Requested s ID_O enabled ↔
    s.akm.mEnabled.getLsbD AkmSensor.Orientation.val = decide (enabled ≠ 0) ∧
      s.acceleration.mOrientationEnabled = flagOf enabled := by
  simp [Requested, ID_A, ID_M, ID_O, ID_L, ID_G]

@[simp] theorem requested_L : Requested s ID_L enabled ↔ s.light.mEnabled = flagOf enabled := by
  simp [Requested, ID_A, ID_M, ID_O, ID_L, ID_G]

@[simp] theorem requested_G : Requested s ID_G enabled ↔ s.gyro.mEnabled = flagOf enabled := by
  simp [Requested, ID_A, ID_M, ID_O, ID_L, ID_G]

end Addressed

def SameFlags (s s' : SensorsPollContext) : Prop :=
  s'.acceleration.mEnabled = s.acceleration.mEnabled ∧
  s'.acceleration.mOrientationEnabled = s.acceleration.mOrientationEnabled ∧
  s'.light.mEnabled = s.light.mEnabled ∧
  s'.akm.mEnabled = s.akm.mEnabled ∧
  s'.gyro.mEnabled = s.gyro.mEnabled

def Contract (s : SensorsPollContext) (handle enabled : ℤ) (out : ℤ × SensorsPollContext) :
    Prop :=
  (out.1 = 0 → Requested out.2 handle enabled) ∧ (out.1 ≠ 0 → SameFlags s out.2)

/-- The light sensor has to be switched and its driver refuses. -/
def LightLost (s : SensorsPollContext) (a : Answers) (enabled : ℤ) : Prop :=
  s.light.mEnabled ≠ flagOf enabled ∧
  Refused a .light s.light.devFd (flagOf enabled) (.MAX9635_IOCTL_SET_ENABLE (flagOf enabled))

/-- The compass has to be switched and its driver agrees, then the
accelerometer has to be switched and its driver refuses. -/
def OrientationHalfDone (s : SensorsPollContext) (a : Answers) (enabled : ℤ) : Prop :=
  (s.akm.mEnabled.getLsbD AkmSensor.Orientation.val ≠ decide (enabled ≠ 0) ∧
    ioctl a (s.akm.controlFd a)
      (AkmSensor.command AkmSensor.Orientation (AkmSensor.newState enabled)) = 0) ∧
  s.acceleration.mOrientationEnabled ≠ flagOf enabled ∧
  ¬ (s.acceleration.mEnabled ≠ 0 ∧ enabled = 0) ∧
  Refused a .acceleration s.acceleration.devFd (flagOf enabled)
    (.KXTF9_IOCTL_SET_ENABLE (flagOf enabled))

def performed (s : SensorsPollContext) (a : Answers) (d : Driver) (handle enabled : ℤ) :
    ℤ × SensorsPollContext :=
  let r := enableSensor s a d handle enabled
  if r.1 = 0 ∧ handle = ID_O then enableOrientation r.2 a enabled else r

theorem activate_eq (s : SensorsPollContext) (a : Answers) (handle enabled : ℤ)
    (d : Driver) (hd : handleToDriver handle = some d) : activate s a handle enabled =
      if enabled ≠ 0 ∧ (performed s a d handle enabled).1 = 0 then
        ((performed s a d handle enabled).1, { (performed s a d handle enabled).2 with
          wakeMessages := (performed s a d handle enabled).2.wakeMessages+1 })
      else performed s a d handle enabled := by
  simp only [activate]
  rw [hd]
  rfl

theorem activate_contract (s : SensorsPollContext) (a : Answers) (handle enabled : ℤ)
    (d : Driver) (hd : handleToDriver handle = some d) :
    Contract s handle enabled (activate s a handle enabled) ↔
      Contract s handle enabled (performed s a d handle enabled) := by
  rw [activate_eq s a handle enabled d hd]
  by_cases hw : enabled ≠ 0 ∧ (performed s a d handle enabled).1 = 0
  · rw [if_pos hw]
    exact Iff.rfl
  · rw [if_neg hw]

section Activate

variable (s : SensorsPollContext) (a : Answers) (enabled : ℤ)

theorem performed_single (d : Driver) (handle : ℤ) (hh : handle ≠ ID_O) :
    performed s a d handle enabled = enableSensor s a d handle enabled := by
  simp only [performed, hh, and_false, if_false]

theorem accelerometer_contract :
    Contract s ID_A enabled (performed s a .acceleration ID_A enabled) := by
  have h := acceleration_enable_sound s.acceleration a enabled
  rw [performed_single s a enabled _ _ (by decide)]
  exact ⟨fun he => (requested_A _ _).mpr (h.1 he), fun he => ⟨h.2.1 he, h.2.2, rfl, rfl, rfl⟩⟩

theorem gyroscope_contract : Contract s ID_G enabled (performed s a .gyro ID_G enabled) := by
  have h := gyro_enable_sound s.gyro a enabled
  rw [performed_single s a enabled _ _ (by decide)]
  exact ⟨fun he => (requested_G _ _).mpr (h.1 he), fun he => ⟨rfl, rfl, rfl, rfl, h.2 he⟩⟩

theorem light_contract : Contract s ID_L enabled (performed s a .light ID_L enabled) ↔
    ¬ LightLost s a enabled := by
  have herr := light_enable_err s.light a enabled
  rw [performed_single s a enabled _ _ (by decide), LightLost, ← light_enable_mEnabled]
  constructor
  · intro h
    exact (requested_L _ _).mp (h.1 herr)
  · intro h
    exact ⟨fun _ => (requested_L _ _).mpr h, fun he => absurd herr he⟩

theorem akm_enable_sound (akm : AkmSensor) (handle : ℤ) (k : Fin 3)
    (hk : AkmSensor.what handle = some k) :
    ((akm.enable a handle enabled).err = 0 →
      (akm.enable a handle enabled).sensor.mEnabled.getLsbD k.val = decide (enabled ≠ 0)) ∧
    ((akm.enable a handle enabled).err ≠ 0 →
      (akm.enable a handle enabled).sensor.mEnabled = akm.mEnabled) := by
  rw [AkmSensor.enable_eq akm a handle enabled k hk]
  by_cases hb : akm.mEnabled.getLsbD k.val = decide (enabled ≠ 0)
  · rw [if_pos hb]
    exact ⟨fun _ => hb, fun _ => rfl⟩
  · rw [if_neg hb]
    constructor
    · intro he
      rw [AkmSensor.switchBit_mEnabled, if_pos he, AkmSensor.withBit_getLsbD, if_pos rfl]
    · intro he
      rw [AkmSensor.switchBit_mEnabled, if_neg he]

theorem magnetic_contract : Contract s ID_M enabled (performed s a .akm ID_M enabled) := by
  have h := akm_enable_sound a enabled s.akm ID_M AkmSensor.MagneticField rfl
  rw [performed_single s a enabled _ _ (by decide)]
  exact ⟨fun he => (requested_M _ _).mpr (h.1 he), fun he => ⟨rfl, rfl, rfl, h.2 he, rfl⟩⟩

theorem akm_enable_changed (akm : AkmSensor) (handle : ℤ) (k : Fin 3)
    (hk : AkmSensor.what handle = some k) :
    ((akm.enable a handle enabled).err = 0 ∧
      (akm.enable a handle enabled).sensor.mEnabled ≠ akm.mEnabled) ↔
    akm.mEnabled.getLsbD k.val ≠ decide (enabled ≠ 0) ∧
      ioctl a (akm.controlFd a) (AkmSensor.command k (AkmSensor.newState enabled)) = 0 := by
  rw [AkmSensor.enable_eq akm a handle enabled k hk, ← AkmSensor.switchBit_err]
  by_cases hb : akm.mEnabled.getLsbD k.val = decide (enabled ≠ 0)
  · rw [if_pos hb]
    exact iff_of_false (fun h => h.2 rfl) (fun h => h.1 hb)
  · rw [if_neg hb]
    constructor
    · exact fun h => ⟨hb, h.1⟩
    · intro h
      have hne : (akm.switchBit a k enabled).sensor.mEnabled ≠ akm.mEnabled := by
        intro heq
        rw [AkmSensor.switchBit_mEnabled, if_pos h.2] at heq
        apply hb
        rw [← heq, AkmSensor.withBit_getLsbD, if_pos rfl]
      exact ⟨h.2, hne⟩

theorem orientation_contract : Contract s ID_O enabled (performed s a .akm ID_O enabled) ↔
    ¬ OrientationHalfDone s a enabled := by
  have h := akm_enable_sound a enabled s.akm ID_O AkmSensor.Orientation rfl
  have hchanged := akm_enable_changed a enabled s.akm ID_O AkmSensor.Orientation rfl
  have ho := acceleration_enableOrientation_sound s.acceleration a enabled
  have hfailed := acceleration_enableOrientation_failed s.acceleration a enabled
  simp only [OrientationHalfDone]
  rw [← hchanged, ← hfailed]
  by_cases he : (s.akm.enable a ID_O enabled).err = 0
  · have hp : performed s a .akm ID_O enabled =
        enableOrientation (enableSensor s a .akm ID_O enabled).2 a enabled :=
      if_pos ⟨he, rfl⟩
    rw [hp]
    by_cases hoe : (s.acceleration.enableOrientation a enabled).err = 0
    · have hrequested := (requested_O (enableOrientation
        (enableSensor s a .akm ID_O enabled).2 a enabled).2 enabled).mpr ⟨h.1 he, ho.1 hoe⟩
      exact iff_of_true ⟨fun _ => hrequested, fun hne => absurd hoe hne⟩ (fun hh => hh.2 hoe)
    · constructor
      · intro hc hh
        exact hh.1.2 (hc.2 hoe).2.2.2.1
      · intro hh
        have hsame : (s.akm.enable a ID_O enabled).sensor.mEnabled = s.akm.mEnabled := by
          by_contra hne
          exact hh ⟨⟨he, hne⟩, hoe⟩
        exact ⟨fun hz => absurd hz hoe, fun _ => ⟨ho.2.2, ho.2.1 hoe, rfl, hsame, rfl⟩⟩
  · have hp : performed s a .akm ID_O enabled = enableSensor s a .akm ID_O enabled :=
      if_neg (fun hh => he hh.1)
    rw [hp]
    exact iff_of_true ⟨fun hz => absurd hz he, fun _ => ⟨rfl, rfl, rfl, h.2 he, rfl⟩⟩
      (fun hh => he hh.1.1)

/-- `activate` meets its contract except when the light driver refuses a
switch or the accelerometer refuses after the compass has agreed. -/
theorem activate_contract_iff (handle : ℤ) :
    Contract s handle enabled (activate s a handle enabled) ↔
      ¬ (handle = ID_L ∧ LightLost s a enabled) ∧
      ¬ (handle = ID_O ∧ OrientationHalfDone s a enabled) := by
  by_cases hA : handle = ID_A
  · subst hA
    rw [activate_contract s a ID_A enabled .acceleration rfl]
    exact iff_of_true (accelerometer_contract s a enabled)
      ⟨fun h => absurd h.1 (by decide), fun h => absurd h.1 (by decide)⟩
  by_cases hM : handle = ID_M
  · subst hM
    rw [activate_contract s a ID_M enabled .akm rfl]
    exact iff_of_true (magnetic_contract s a enabled)
      ⟨fun h => absurd h.1 (by decide), fun h => absurd h.1 (by decide)⟩
  by_cases hO : handle = ID_O
  · subst hO
    rw [activate_contract s a ID_O enabled .akm rfl, orientation_contract]
    constructor
    · exact fun h => ⟨fun hl => absurd hl.1 (by decide), fun ho => h ho.2⟩
    · exact fun h ho => h.2 ⟨rfl, ho⟩
  by_cases hG : handle = ID_G
  · subst hG
    rw [activate_contract s a ID_G enabled .gyro rfl]
    exact iff_of_true (gyroscope_contract s a enabled)
      ⟨fun h => absurd h.1 (by decide), fun h => absurd h.1 (by decide)⟩
  by_cases hL : handle = ID_L
  · subst hL
    rw [activate_contract s a ID_L enabled .light rfl, light_contract]
    constructor
    · exact fun h => ⟨fun hl => h hl.2, fun ho => absurd ho.1 (by decide)⟩
    · exact fun h hl => h.1 ⟨rfl, hl⟩
  have hnone : handleToDriver handle = none := by
    simp [handleToDriver, hA, hM, hO, hG, hL]
  have hact : activate s a handle enabled = (-EINVAL, s) := by
    simp only [activate]
    rw [hnone]
  rw [hact]
  have herr : ¬ -EINVAL = 0 := by decide
  exact iff_of_true ⟨fun h => absurd h herr, fun _ => ⟨rfl, rfl, rfl, rfl, rfl⟩⟩
    ⟨fun h => hL h.1, fun h => hO h.1⟩

end Activate

def idleProbe : Probe := ⟨fun _ => none, fun _ => none⟩

def lightRefuses : Answers where
  opened := fun _ => some 3
  refused
    | .MAX9635_IOCTL_SET_ENABLE _ => some ⟨5, by decide⟩
    | _ => none

/-- On a fresh context the light driver fails with EIO and `activate` still
reports success. -/
theorem light_error_swallowed :
    ¬ Contract (.new idleProbe) ID_L 1 (activate (.new idleProbe) lightRefuses ID_L 1) := by
  intro h
  have hl := (requested_L _ _).mp (h.1 (by decide +kernel))
  exact absurd hl (by decide +kernel)

end Wingray.SensorSwitch
