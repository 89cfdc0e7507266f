import Wingray.GuardedRun
import Wingray.SensorPower

/-!
# The control descriptors of the sensor objects

A sensor that is on is meant to keep its control device open and one that is
off to keep it closed. Opening and closing stand on either side of the ioctl,
and only the compass looks at the outcome before it closes.
-/

set_option autoImplicit false

namespace Wingray.SensorDescriptors
open Wingray.GuardedRun Wingray.SensorSwitch Wingray.SensorPower

/-! ## `setDelay` -/

inductive DelayRequest
  | KXTF9_IOCTL_SET_DELAY (delay : BitVec 32)
  | L3G4200D_IOCTL_SET_DELAY (delay : BitVec 32)
  deriving DecidableEq

structure DelayAnswers where
  akm : Answers
  refused : DelayRequest → Option Errno

def delayIoctl (a : DelayAnswers) (devFd : Option ℕ) (request : DelayRequest) : ℤ :=
  match devFd, a.refused request with
  | none, _ => -EBADF
  | some _, some errno => -(errno.val : ℤ)
  | some _, none => 0

def delayOf (ns : BitVec 64) : BitVec 32 := BitVec.ofInt 32 (ns.toInt.tdiv 1000000)

def accelerationSetDelay (s : AccelerationSensor) (a : DelayAnswers) (ns : BitVec 64) : ℤ :=
  if ns.toInt < 0 then -EINVAL
  else if s.mEnabled ≠ 0 ∨ s.mOrientationEnabled ≠ 0 then
    delayIoctl a s.devFd (.KXTF9_IOCTL_SET_DELAY (delayOf ns))
  else 0

def gyroSetDelay (s : GyroSensor) (a : DelayAnswers) (ns : BitVec 64) : ℤ :=
  if ns.toInt < 0 then -EINVAL else delayIoctl a s.devFd (.L3G4200D_IOCTL_SET_DELAY (delayOf ns))

def akmSetDelay (s : AkmSensor) (a : DelayAnswers) (handle : ℤ) (ns : BitVec 64) :
    Done AkmSensor :=
  match AkmSensor.what handle with
  | none => ⟨-EINVAL, s, []⟩
  | some what =>
    if ns.toInt < 0 then ⟨-EINVAL, s, []⟩
    else
      let s := { s with mDelays := Function.update s.mDelays what ns }
      ⟨(s.updateDelay a.akm).1, s, (s.updateDelay a.akm).2⟩

def setDelay (s : SensorsPollContext) (a : DelayAnswers) (handle : ℤ) (ns : BitVec 64) :
    ℤ × SensorsPollContext :=
  match handleToDriver handle with
  | none => (-EINVAL, s)
  | some .acceleration => (accelerationSetDelay s.acceleration a ns, s)
  | some .light => (0, s)
  | some .akm =>
    let r := akmSetDelay s.akm a handle ns
    (r.err, { s with akm := r.sensor, requests := s.requests ++ r.requests })
  | some .gyro => (gyroSetDelay s.gyro a ns, s)

/-! ## Calls -/

inductive Call
  | activate (answers : Answers) (handle enabled : ℤ)
  | setDelay (answers : DelayAnswers) (handle : ℤ) (ns : BitVec 64)

def step (s : SensorsPollContext) : Call → Option SensorsPollContext
  | .activate a handle enabled => some (SensorSwitch.activate s a handle enabled).2
  | .setDelay a handle ns => some (SensorDescriptors.setDelay s a handle ns).2

def Paired (devFd : Option ℕ) (on : Prop) : Prop := devFd.isSome = true ↔ on

/-- Every control descriptor is open exactly when its sensor is on. -/
structure Agrees (s : SensorsPollContext) : Prop where
  acceleration : Paired s.acceleration.devFd
    (s.acceleration.mEnabled ≠ 0 ∨ s.acceleration.mOrientationEnabled ≠ 0)
  light : Paired s.light.devFd (s.light.mEnabled ≠ 0)
  akm : Paired s.akm.devFd (s.akm.mEnabled ≠ 0)
  gyro : Paired s.gyro.devFd (s.gyro.mEnabled ≠ 0)

/-- The sensor is to change sides, its control device is open or can be opened
for it, and the driver refuses the ioctl. -/
def SwitchRefused (a : Answers) (d : Driver) (devFd : Option ℕ) (flag en : ℤ)
    (request : Request) : Prop :=
  (en = 0 ↔ flag ≠ 0) ∧ (if en ≠ 0 then openDevice a d devFd else devFd).isSome = true ∧
    (a.refused request).isSome = true

def AccelerationRefused (s : AccelerationSensor) (a : Answers) (en : ℤ) : Prop :=
  s.mOrientationEnabled = 0 ∧ SwitchRefused a .acceleration s.devFd s.mEnabled en
    (.KXTF9_IOCTL_SET_ENABLE (flagOf en))

/-- The compass is already as requested, or its driver takes the request. -/
def CompassTakes (s : AkmSensor) (a : Answers) (en : ℤ) : Prop :=
  s.mEnabled.getLsbD AkmSensor.Orientation.val = decide (en ≠ 0) ∨
  ioctl a (s.controlFd a) (AkmSensor.command AkmSensor.Orientation (AkmSensor.newState en)) = 0

/-- The call has an open descriptor closed, or leaves one open, although the
driver refused to switch the sensor. -/
def Strands (s : SensorsPollContext) : Call → Prop
  | .activate a handle en =>
    (handle = ID_A ∧ AccelerationRefused s.acceleration a en) ∨
    (handle = ID_O ∧ CompassTakes s.akm a en ∧
      AccelerationRefused (exchanged s.acceleration) a en) ∨
    (handle = ID_L ∧ SwitchRefused a .light s.light.devFd s.light.mEnabled en
      (.MAX9635_IOCTL_SET_ENABLE (flagOf en))) ∨
    (handle = ID_G ∧ SwitchRefused a .gyro s.gyro.devFd s.gyro.mEnabled en
      (.L3G4200D_IOCTL_SET_ENABLE (flagOf en)))
  | .setDelay _ _ _ => False

/-! ## One switch -/

section Switches

variable (a : Answers) (en : ℤ)

theorem flagOf_eq_zero : flagOf en = 0 ↔ en = 0 := by
  rw [← not_iff_not]
  exact flagOf_ne_zero en

theorem ioctl_taken (devFd : Option ℕ) (request : Request) :
    ioctl a devFd request = 0 ↔ devFd.isSome = true ∧ a.refused request = none := by
  cases devFd with
  | none => simp [ioctl, EBADF]
  | some fd =>
    cases hr : a.refused request with
    | none => simp [ioctl, hr]
    | some errno =>
      have hpos := errno.property
      simp [ioctl, hr]
      omega

theorem openDevice_of_some (d : Driver) {devFd : Option ℕ} (h : devFd.isSome = true) :
    openDevice a d devFd = devFd := by
  obtain ⟨fd, rfl⟩ := Option.isSome_iff_exists.mp h
  rfl

theorem switchDevice_off (d : Driver) (devFd : Option ℕ) (flag : ℤ) (request : Request)
    (h : Paired devFd (flag ≠ 0)) :
    Paired (switchDevice a d devFd flag 0 request).devFd
        ((switchDevice a d devFd flag 0 request).flag ≠ 0) ↔
      ¬ SwitchRefused a d devFd flag 0 request := by
  have hclosed : (switchDevice a d devFd flag 0 request).devFd = none := rfl
  have hflag : (switchDevice a d devFd flag 0 request).flag =
      if devFd.isSome = true ∧ a.refused request = none then 0 else flag :=
    if_congr (ioctl_taken a devFd request) rfl rfl
  simp only [Paired] at h
  simp only [Paired, SwitchRefused, hclosed, hflag]
  cases hr : a.refused request with
  | none =>
    by_cases hopen : devFd.isSome = true
    · simp [hopen]
    · simp [hopen, not_not.mp (mt h.mpr hopen)]
  | some errno => simp [h]

theorem switchDevice_on (d : Driver) (devFd : Option ℕ) (flag : ℤ) (request : Request)
    (h : Paired devFd (flag ≠ 0)) (hen : en ≠ 0) :
    Paired (switchDevice a d devFd flag 1 request).devFd
        ((switchDevice a d devFd flag 1 request).flag ≠ 0) ↔
      ¬ SwitchRefused a d devFd flag en request := by
  have hopened : (switchDevice a d devFd flag 1 request).devFd = openDevice a d devFd := rfl
  have hflag : (switchDevice a d devFd flag 1 request).flag =
      if (openDevice a d devFd).isSome = true ∧ a.refused request = none then 1 else flag :=
    if_congr (ioctl_taken a _ request) rfl rfl
  simp only [Paired] at h
  simp only [Paired, SwitchRefused, hopened, hflag]
  rw [if_pos hen]
  by_cases hon : flag = 0
  · cases hr : a.refused request <;> simp [hon, hen, Option.isSome_iff_ne_none]
  · have hopen : (openDevice a d devFd).isSome = true := by
      rw [openDevice_of_some a d (h.mpr hon)]
      exact h.mpr hon
    cases hr : a.refused request <;> simp [hon, hen, hopen]

theorem switchDevice_paired (d : Driver) (devFd : Option ℕ) (flag : ℤ) (request : Request)
    (h : Paired devFd (flag ≠ 0)) :
    Paired (switchDevice a d devFd flag (flagOf en) request).devFd
        ((switchDevice a d devFd flag (flagOf en) request).flag ≠ 0) ↔
      ¬ SwitchRefused a d devFd flag en request := by
  by_cases hen : en = 0
  · rw [hen, flagOf_zero]
    exact switchDevice_off a d devFd flag request h
  · have hone : flagOf en = 1 := if_pos hen
    rw [hone]
    exact switchDevice_on a en d devFd flag request h hen

theorem unchanged_not_refused (d : Driver) (devFd : Option ℕ) (flag : ℤ) (request : Request)
    (h : flagOf en = flag) : ¬ SwitchRefused a d devFd flag en request := by
  rintro ⟨hswitch, _⟩
  rw [← h, ne_eq, flagOf_eq_zero] at hswitch
  exact (iff_not_self hswitch)

theorem acceleration_paired (s : AccelerationSensor)
    (h : Paired s.devFd (s.mEnabled ≠ 0 ∨ s.mOrientationEnabled ≠ 0)) :
    Paired (s.enable a en).sensor.devFd ((s.enable a en).sensor.mEnabled ≠ 0 ∨
        (s.enable a en).sensor.mOrientationEnabled ≠ 0) ↔ ¬ AccelerationRefused s a en := by
  simp only [AccelerationSensor.enable]
  by_cases hf : flagOf en ≠ s.mEnabled
  · by_cases ho : s.mOrientationEnabled = 0
    · have halone : Paired s.devFd (s.mEnabled ≠ 0) := by simpa [ho] using h
      rw [if_pos hf, if_neg (fun hshared => hshared.1 ho)]
      have hswitch := switchDevice_paired a en .acceleration s.devFd s.mEnabled
        (.KXTF9_IOCTL_SET_ENABLE (flagOf en)) halone
      simpa [AccelerationRefused, ho] using hswitch
    · -- the other user keeps the descriptor open
      have hopen : s.devFd.isSome = true := h.mpr (.inr ho)
      apply iff_of_true _ (fun hr => ho hr.1)
      rw [if_pos hf]
      split_ifs with hshared
      · exact iff_of_true hopen (.inr ho)
      · have hen : flagOf en ≠ 0 := (flagOf_ne_zero en).mpr (fun he => hshared ⟨ho, he⟩)
        apply iff_of_true _ (.inr ho)
        simp only [switchDevice, if_pos hen, if_neg hen]
        rw [openDevice_of_some a .acceleration hopen]
        exact hopen
  · rw [if_neg hf]
    exact iff_of_true h (fun hr => unchanged_not_refused a en _ _ _ _ (not_not.mp hf) hr.2)

theorem paired_exchanged (s : AccelerationSensor) :
    Paired (exchanged s).devFd ((exchanged s).mEnabled ≠ 0 ∨
        (exchanged s).mOrientationEnabled ≠ 0) ↔
      Paired s.devFd (s.mEnabled ≠ 0 ∨ s.mOrientationEnabled ≠ 0) := by
  simp only [Paired, exchanged]
  rw [or_comm]

theorem orientation_paired (s : AccelerationSensor)
    (h : Paired s.devFd (s.mEnabled ≠ 0 ∨ s.mOrientationEnabled ≠ 0)) :
    Paired (s.enableOrientation a en).sensor.devFd
        ((s.enableOrientation a en).sensor.mEnabled ≠ 0 ∨
          (s.enableOrientation a en).sensor.mOrientationEnabled ≠ 0) ↔
      ¬ AccelerationRefused (exchanged s) a en := by
  have hm := acceleration_paired a en (exchanged s) ((paired_exchanged s).mpr h)
  rw [enableOrientation_mirror]
  exact (paired_exchanged _).trans hm

theorem light_paired (s : LightSensor) (h : Paired s.devFd (s.mEnabled ≠ 0)) :
    Paired (s.enable a en).sensor.devFd ((s.enable a en).sensor.mEnabled ≠ 0) ↔
      ¬ SwitchRefused a .light s.devFd s.mEnabled en (.MAX9635_IOCTL_SET_ENABLE (flagOf en)) := by
  simp only [LightSensor.enable]
  by_cases hf : s.mEnabled ≠ flagOf en
  · rw [if_pos hf]
    exact switchDevice_paired a en .light s.devFd s.mEnabled _ h
  · rw [if_neg hf]
    exact iff_of_true h (unchanged_not_refused a en _ _ _ _ (not_not.mp hf).symm)

theorem gyro_paired (s : GyroSensor) (h : Paired s.devFd (s.mEnabled ≠ 0)) :
    Paired (s.enable a en).sensor.devFd ((s.enable a en).sensor.mEnabled ≠ 0) ↔
      ¬ SwitchRefused a .gyro s.devFd s.mEnabled en (.L3G4200D_IOCTL_SET_ENABLE (flagOf en)) := by
  simp only [GyroSensor.enable]
  by_cases hf : flagOf en ≠ s.mEnabled
  · rw [if_pos hf]
    exact switchDevice_paired a en .gyro s.devFd s.mEnabled _ h
  · rw [if_neg hf]
    exact iff_of_true h (unchanged_not_refused a en _ _ _ _ (not_not.mp hf))

end Switches

/-! ## The compass -/

section Compass

variable (s : AkmSensor) (a : Answers)

theorem switchBit_devFd (k : Fin 3) (en : ℤ) :
    (s.switchBit a k en).sensor.devFd =
      if (s.switchBit a k en).sensor.mEnabled = 0 then none else s.controlFd a := by
  simp only [AkmSensor.switchBit, AkmSensor.controlFd]
  split_ifs <;> simp_all

/-- The compass closes its descriptor by its flags, not by the request. -/
theorem switchBit_paired (k : Fin 3) (en : ℤ) (h : Paired s.devFd (s.mEnabled ≠ 0)) :
    Paired (s.switchBit a k en).sensor.devFd ((s.switchBit a k en).sensor.mEnabled ≠ 0) := by
  simp only [Paired, switchBit_devFd]
  by_cases hoff : (s.switchBit a k en).sensor.mEnabled = 0
  · simp [hoff]
  · rw [if_neg hoff]
    apply iff_of_true _ hoff
    rw [s.switchBit_mEnabled a k en] at hoff
    by_cases herr : (s.switchBit a k en).err = 0
    · rw [s.switchBit_err a k en] at herr
      exact ((ioctl_taken a _ _).mp herr).1
    · rw [if_neg herr] at hoff
      rw [AkmSensor.controlFd, if_neg hoff]
      exact h.mpr hoff

theorem akm_paired (handle en : ℤ) (h : Paired s.devFd (s.mEnabled ≠ 0)) :
    Paired (s.enable a handle en).sensor.devFd ((s.enable a handle en).sensor.mEnabled ≠ 0) := by
  cases hk : AkmSensor.what handle with
  | none =>
    simp only [AkmSensor.enable, hk]
    exact h
  | some k =>
    rw [s.enable_eq a handle en k hk]
    split_ifs
    · exact h
    · exact switchBit_paired s a k en h

theorem akm_takes (en : ℤ) :
    (s.enable a ID_O en).err = 0 ↔ CompassTakes s a en := by
  rw [s.enable_eq a ID_O en AkmSensor.Orientation rfl, CompassTakes]
  by_cases hbit : s.mEnabled.getLsbD AkmSensor.Orientation.val = decide (en ≠ 0)
  · rw [if_pos hbit]
    exact iff_of_true rfl (.inl hbit)
  · rw [if_neg hbit, s.switchBit_err a AkmSensor.Orientation en]
    exact (or_iff_right hbit).symm

end Compass

/-! ## The poll context -/

section Context

variable {s : SensorsPollContext} (h : Agrees s) (a : Answers) (en : ℤ)

include h

theorem agrees_acceleration (x : AccelerationSensor) (rs : List Request) :
    Agrees { s with acceleration := x, requests := rs } ↔
      Paired x.devFd (x.mEnabled ≠ 0 ∨ x.mOrientationEnabled ≠ 0) :=
  ⟨fun hx => hx.acceleration, fun hx => ⟨hx, h.light, h.akm, h.gyro⟩⟩

theorem agrees_light (x : LightSensor) (rs : List Request) :
    Agrees { s with light := x, requests := rs } ↔ Paired x.devFd (x.mEnabled ≠ 0) :=
  ⟨fun hx => hx.light, fun hx => ⟨h.acceleration, hx, h.akm, h.gyro⟩⟩

theorem agrees_akm (x : AkmSensor) (rs : List Request) :
    Agrees { s with akm := x, requests := rs } ↔ Paired x.devFd (x.mEnabled ≠ 0) :=
  ⟨fun hx => hx.akm, fun hx => ⟨h.acceleration, h.light, hx, h.gyro⟩⟩

theorem agrees_gyro (x : GyroSensor) (rs : List Request) :
    Agrees { s with gyro := x, requests := rs } ↔ Paired x.devFd (x.mEnabled ≠ 0) :=
  ⟨fun hx => hx.gyro, fun hx => ⟨h.acceleration, h.light, h.akm, hx⟩⟩

theorem accelerometer_agrees :
    Agrees (performed s a .acceleration ID_A en).2 ↔ ¬ Strands s (.activate a ID_A en) := by
  have hstrands : Strands s (.activate a ID_A en) ↔ AccelerationRefused s.acceleration a en := by
    simp [Strands, ID_A, ID_O, ID_L, ID_G]
  rw [performed_single s a en _ _ (by decide), hstrands]
  exact (agrees_acceleration h _ _).trans (acceleration_paired a en s.acceleration h.acceleration)

theorem light_agrees :
    Agrees (performed s a .light ID_L en).2 ↔ ¬ Strands s (.activate a ID_L en) := by
  have hstrands : Strands s (.activate a ID_L en) ↔ SwitchRefused a .light s.light.devFd
      s.light.mEnabled en (.MAX9635_IOCTL_SET_ENABLE (flagOf en)) := by
    simp [Strands, ID_A, ID_O, ID_L, ID_G]
  rw [performed_single s a en _ _ (by decide), hstrands]
  exact (agrees_light h _ _).trans (light_paired a en s.light h.light)

theorem gyroscope_agrees :
    Agrees (performed s a .gyro ID_G en).2 ↔ ¬ Strands s (.activate a ID_G en) := by
  have hstrands : Strands s (.activate a ID_G en) ↔ SwitchRefused a .gyro s.gyro.devFd
      s.gyro.mEnabled en (.L3G4200D_IOCTL_SET_ENABLE (flagOf en)) := by
    simp [Strands, ID_A, ID_O, ID_L, ID_G]
  rw [performed_single s a en _ _ (by decide), hstrands]
  exact (agrees_gyro h _ _).trans (gyro_paired a en s.gyro h.gyro)

theorem compass_agrees (handle : ℤ) : Agrees (enableSensor s a .akm handle en).2 :=
  (agrees_akm h _ _).mpr (akm_paired s.akm a handle en h.akm)

theorem magnetic_agrees :
    Agrees (performed s a .akm ID_M en).2 ↔ ¬ Strands s (.activate a ID_M en) := by
  rw [performed_single s a en _ _ (by decide)]
  apply iff_of_true (compass_agrees h a en ID_M)
  simp [Strands, ID_M, ID_A, ID_O, ID_L, ID_G]

theorem orientation_agrees :
    Agrees (performed s a .akm ID_O en).2 ↔ ¬ Strands s (.activate a ID_O en) := by
  have hcompass := compass_agrees h a en ID_O
  have hstrands : Strands s (.activate a ID_O en) ↔ (s.akm.enable a ID_O en).err = 0 ∧
      AccelerationRefused (exchanged s.acceleration) a en := by
    rw [akm_takes]
    simp [Strands, ID_A, ID_O, ID_L, ID_G]
  rw [hstrands]
  by_cases he : (s.akm.enable a ID_O en).err = 0
  · have hp : performed s a .akm ID_O en =
        enableOrientation (enableSensor s a .akm ID_O en).2 a en :=
      if_pos ⟨he, rfl⟩
    rw [hp, and_iff_right he]
    exact (agrees_acceleration hcompass _ _).trans
      (orientation_paired a en s.acceleration h.acceleration)
  · have hp : performed s a .akm ID_O en = enableSensor s a .akm ID_O en :=
      if_neg (fun hs => he hs.1)
    rw [hp]
    exact iff_of_true hcompass (fun hs => he hs.1)

omit h in
theorem agrees_wake (n : ℕ) : Agrees { s with wakeMessages := n } ↔ Agrees s :=
  ⟨fun hs => ⟨hs.1, hs.2, hs.3, hs.4⟩, fun hs => ⟨hs.1, hs.2, hs.3, hs.4⟩⟩

omit h in
theorem activate_agrees (d : Driver) (handle : ℤ) (hd : handleToDriver handle = some d) :
    Agrees (activate s a handle en).2 ↔ Agrees (performed s a d handle en).2 := by
  rw [activate_eq s a handle en d hd]
  split_ifs
  · exact agrees_wake _
  · exact Iff.rfl

theorem activate_agrees_iff (handle : ℤ) :
    Agrees (activate s a handle en).2 ↔ ¬ Strands s (.activate a handle en) := by
  by_cases hA : handle = ID_A
  · subst hA
    exact (activate_agrees a en .acceleration ID_A rfl).trans (accelerometer_agrees h a en)
  by_cases hM : handle = ID_M
  · subst hM
    exact (activate_agrees a en .akm ID_M rfl).trans (magnetic_agrees h a en)
  by_cases hO : handle = ID_O
  · subst hO
    exact (activate_agrees a en .akm ID_O rfl).trans (orientation_agrees h a en)
  by_cases hG : handle = ID_G
  · subst hG
    exact (activate_agrees a en .gyro ID_G rfl).trans (gyroscope_agrees h a en)
  by_cases hL : handle = ID_L
  · subst hL
    exact (activate_agrees a en .light ID_L rfl).trans (light_agrees h a en)
  · have hnone : handleToDriver handle = none := by
      simp [handleToDriver, hA, hM, hO, hG, hL]
    have hsame : (activate s a handle en).2 = s := by
      simp only [activate, hnone]
    rw [hsame]
    apply iff_of_true h
    simp [Strands, hA, hO, hL, hG]

theorem setDelay_agrees (da : DelayAnswers) (handle : ℤ) (ns : BitVec 64) :
    Agrees (setDelay s da handle ns).2 := by
  cases hd : handleToDriver handle with
  | none =>
    simp only [setDelay, hd]
    exact h
  | some d =>
    cases d with
    | acceleration =>
      simp only [setDelay, hd]
      exact h
    | light =>
      simp only [setDelay, hd]
      exact h
    | gyro =>
      simp only [setDelay, hd]
      exact h
    | akm =>
      simp only [setDelay, hd]
      apply (agrees_akm h _ _).mpr
      simp only [akmSetDelay]
      split
      · exact h.akm
      · split_ifs
        · exact h.akm
        · exact h.akm

theorem step_agrees_iff (c : Call) {s' : SensorsPollContext} (hs : step s c = some s') :
    Agrees s' ↔ ¬ Strands s c := by
  cases c with
  | activate a handle en =>
    obtain rfl := Option.some.inj hs
    exact activate_agrees_iff h a en handle
  | setDelay da handle ns =>
    obtain rfl := Option.some.inj hs
    exact iff_of_true (setDelay_agrees h da handle ns) id

end Context

/-! ## Runs -/

theorem probe_opened {p : Probe} {d : Driver} {q : Query} (h : p.on d q = true) :
    (p.opened d).isSome = true := by
  simp only [Probe.on, Bool.and_eq_true] at h
  exact h.1

theorem probe_paired (p : Probe) (d : Driver) (q : Query) :
    Paired (if p.on d q then p.opened d else none) ((if p.on d q then (1 : ℤ) else 0) ≠ 0) := by
  by_cases hon : p.on d q = true
  · rw [if_pos hon, if_pos hon]
    exact iff_of_true (probe_opened hon) one_ne_zero
  · rw [if_neg hon, if_neg hon]
    exact iff_of_false Bool.false_ne_true (fun hne => hne rfl)

theorem akm_new_paired (p : Probe) :
    Paired (AkmSensor.new p).devFd ((AkmSensor.new p).mEnabled ≠ 0) := by
  have hfd : (AkmSensor.new p).devFd =
      if (AkmSensor.new p).mEnabled = 0 then none else p.opened .akm := rfl
  simp only [Paired, hfd]
  by_cases hoff : (AkmSensor.new p).mEnabled = 0
  · rw [if_pos hoff]
    exact iff_of_false Bool.false_ne_true (fun hne => hne hoff)
  · rw [if_neg hoff]
    apply iff_of_true _ hoff
    by_cases hmv : p.on .akm .ECS_IOCTL_APP_GET_MVFLAG = true
    · exact probe_opened hmv
    · by_cases hm : p.on .akm .ECS_IOCTL_APP_GET_MFLAG = true
      · exact probe_opened hm
      · exact absurd (by simp [AkmSensor.new, hmv, hm]) hoff

theorem new_agrees (p : Probe) : Agrees (.new p) := by
  constructor
  case acceleration =>
    simpa [SensorsPollContext.new, AccelerationSensor.new] using
      probe_paired p .acceleration .KXTF9_IOCTL_GET_ENABLE
  case light => exact iff_of_false Bool.false_ne_true (fun hne => hne rfl)
  case akm => exact akm_new_paired p
  case gyro => exact probe_paired p .gyro .L3G4200D_IOCTL_GET_ENABLE

def KeepsAgreement (s : SensorsPollContext) (c : Call) : Prop := ∀ s', step s c = some s' → Agrees s'

/-- The descriptors agree with the flags after every call of a run exactly when
no call of it strands one. -/
theorem descriptors_agree_iff (p : Probe) (cs : List Call) (t : SensorsPollContext) :
    Run step KeepsAgreement (.new p) cs t ↔ Run step (fun s c => ¬ Strands s c) (.new p) cs t := by
  constructor
  · intro hr
    apply hr.transfer Agrees _ (new_agrees p)
    intro s c s' ha hc hs
    exact ⟨(step_agrees_iff ha c hs).mp (hc s' hs), hc s' hs⟩
  · intro hr
    apply hr.transfer Agrees _ (new_agrees p)
    intro s c s' ha hc hs
    exact ⟨fun u hu => (step_agrees_iff ha c hu).mpr hc, (step_agrees_iff ha c hs).mpr hc⟩

def gyroAnswers (errno : Option Errno) : Answers where
  opened _ := some 6
  refused
    | .L3G4200D_IOCTL_SET_ENABLE _ => errno
    | _ => none

def gyroCalls : List Call :=
  [.activate (gyroAnswers none) ID_G 1, .activate (gyroAnswers (some ⟨1, Nat.one_pos⟩)) ID_G 0]

def gyroStranded : SensorsPollContext :=
  (activate (activate (.new idleProbe) (gyroAnswers none) ID_G 1).2
    (gyroAnswers (some ⟨1, Nat.one_pos⟩)) ID_G 0).2

/-- The gyroscope is switched on, and its driver refuses to switch it off: it
stays recorded as on, with no descriptor left to reach it. -/
theorem refused_gyroscope_stranded :
    Run step (fun _ _ => True) (.new idleProbe) gyroCalls gyroStranded ∧
      gyroStranded.gyro.mEnabled = 1 ∧ gyroStranded.gyro.devFd = none ∧ ¬ Agrees gyroStranded := by
  have hon : gyroStranded.gyro.mEnabled = 1 := by
    decide +kernel
  have hclosed : gyroStranded.gyro.devFd = none := by
    decide +kernel
  refine ⟨.cons rfl trivial (.cons rfl trivial (.nil _)), hon, hclosed, ?_⟩
  intro ha
  have hopen := ha.gyro.mpr (fun hz => one_ne_zero (hon.symm.trans hz))
  rw [hclosed] at hopen
  exact Bool.false_ne_true hopen

end Wingray.SensorDescriptors
