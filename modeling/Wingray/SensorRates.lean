import Wingray.CompassDelay

/-!
# Setting a rate and switching a sensor on

A rate may be set before the sensor is switched on or after. The compass keeps
the rate of a sensor that is off, the accelerometer ignores it, and the gyroscope
asks its driver even so.
-/

set_option autoImplicit false

namespace Wingray.SensorRates
open Wingray.SensorSwitch Wingray.SensorDescriptors Wingray.CompassDelay

/-- The sensor objects and the sampling periods of their drivers; `compass` is
the one before any request. -/
structure Board where
  context : SensorsPollContext
  acceleration : BitVec 32
  gyro : BitVec 32
  compass : BitVec 16

structure Periods where
  acceleration : BitVec 32
  gyro : BitVec 32
  akm : BitVec 16
  deriving DecidableEq

def accelerationPeriod (s : AccelerationSensor) (a : DelayAnswers) (ns : BitVec 64)
    (period : BitVec 32) : BitVec 32 :=
  if ¬ ns.toInt < 0 ∧ (s.mEnabled ≠ 0 ∨ s.mOrientationEnabled ≠ 0) ∧
      delayIoctl a s.devFd (.KXTF9_IOCTL_SET_DELAY (delayOf ns)) = 0 then delayOf ns else period

def gyroPeriod (s : GyroSensor) (a : DelayAnswers) (ns : BitVec 64) (period : BitVec 32) :
    BitVec 32 :=
  if ¬ ns.toInt < 0 ∧ delayIoctl a s.devFd (.L3G4200D_IOCTL_SET_DELAY (delayOf ns)) = 0
  then delayOf ns else period

namespace Board

def periods (b : Board) : Periods where
  acceleration := b.acceleration
  gyro := b.gyro
  akm := (lastDelay b.context.requests).getD b.compass

def setDelay (b : Board) (a : DelayAnswers) (handle : ℤ) (ns : BitVec 64) : Board := { b with
  context := (SensorDescriptors.setDelay b.context a handle ns).2
  acceleration := if handleToDriver handle = some .acceleration
    then accelerationPeriod b.context.acceleration a ns b.acceleration else b.acceleration
  gyro := if handleToDriver handle = some .gyro
    then gyroPeriod b.context.gyro a ns b.gyro else b.gyro }

def activate (b : Board) (a : Answers) (handle enabled : ℤ) : Board := { b with
  context := (SensorSwitch.activate b.context a handle enabled).2 }

end Board

/-- No driver refuses an ioctl on an open descriptor. -/
structure Obliging (a : Answers) (d : DelayAnswers) : Prop where
  activate : ∀ request, a.refused request = none
  compass : ∀ request, d.akm.refused request = none
  setDelay : ∀ request, d.refused request = none

def Disabled (s : SensorsPollContext) (handle : ℤ) : Prop :=
  (handle = ID_A ∧ s.acceleration.mEnabled = 0) ∨
  (handle = ID_M ∧ enabled s.akm AkmSensor.MagneticField = false) ∨
  (handle = ID_O ∧ enabled s.akm AkmSensor.Orientation = false) ∨
  (handle = ID_G ∧ s.gyro.mEnabled = 0)

def Commute (b : Board) (a : Answers) (d : DelayAnswers) (handle : ℤ) (ns : BitVec 64) : Prop :=
  ((b.setDelay d handle ns).activate a handle 1).periods =
    ((b.activate a handle 1).setDelay d handle ns).periods

/-- The compass settles by itself. The drivers of the others have the rate
already, or cannot be opened, or can be asked although the sensor is off. -/
def Settles (b : Board) (a : Answers) (handle : ℤ) (ns : BitVec 64) : Prop :=
  handle = ID_M ∨ handle = ID_O ∨
  (handle = ID_A ∧ (b.acceleration = delayOf ns ∨
    openDevice a .acceleration b.context.acceleration.devFd = none ∨
    (b.context.acceleration.mOrientationEnabled ≠ 0 ∧
      b.context.acceleration.devFd.isSome = true))) ∨
  (handle = ID_G ∧ (b.gyro = delayOf ns ∨ openDevice a .gyro b.context.gyro.devFd = none ∨
    b.context.gyro.devFd.isSome = true))

/-! ## The compass -/

theorem lastDelay_append (rs qs : List Request) :
    lastDelay (rs ++ qs) = (lastDelay qs).or (lastDelay rs) := by
  rw [lastDelay, List.filterMap_append, List.getLast?_append]
  rfl

theorem lastDelay_pair (command : Request) (delay : BitVec 16) :
    lastDelay [command, .ECS_IOCTL_APP_SET_DELAY delay] = some delay :=
  lastDelay_concat [command] delay

section Compass

variable (s : AkmSensor) {a : Answers} {d : DelayAnswers} {handle : ℤ} {k : Fin 3} {ns : BitVec 64}

def stored (s : AkmSensor) (k : Fin 3) (ns : BitVec 64) : AkmSensor :=
  { s with mDelays := Function.update s.mDelays k ns }

theorem updateDelay_refused {a : Answers} (h : s.mEnabled = 0 ∨ s.devFd = none) :
    (s.updateDelay a).2 = [] := by
  by_cases hon : s.mEnabled = 0
  · simp only [AkmSensor.updateDelay, hon, ne_eq, not_true_eq_false, if_false]
  · have hrefused (request : Request) : ¬ ioctl a none request = 0 := by
      show ¬ -EBADF = 0
      decide
    simp only [AkmSensor.updateDelay, if_pos hon, h.resolve_left hon, accepted,
      if_neg (hrefused _)]

theorem akmSetDelay_stored (hk : AkmSensor.what handle = some k) (hns : ¬ ns.toInt < 0) :
    akmSetDelay s d handle ns =
      ⟨((stored s k ns).updateDelay d.akm).1, stored s k ns,
        ((stored s k ns).updateDelay d.akm).2⟩ := by
  simp only [akmSetDelay, hk, if_neg hns]
  rfl

theorem switched_on (a : Answers) (k : Fin 3) : (switched s a k 1).mEnabled ≠ 0 := by
  intro hzero
  have hbit := AkmSensor.withBit_getLsbD s.mEnabled k 1 k.val
  have hoff : AkmSensor.withBit s.mEnabled k (AkmSensor.newState 1) = 0 := hzero
  simp [hoff] at hbit

/-- The delay that goes out last is the one with the stored delay, in either
order, if there is a device at all. -/
theorem compass_order (ha : ∀ request, a.refused request = none)
    (hd : ∀ request, d.akm.refused request = none) (hk : AkmSensor.what handle = some k)
    (hoff : enabled s k = false) (hns : ¬ ns.toInt < 0) :
    (lastDelay ((akmSetDelay s d handle ns).sensor.enable a handle 1).requests).or
        (lastDelay (akmSetDelay s d handle ns).requests) =
      (lastDelay (akmSetDelay (s.enable a handle 1).sensor d handle ns).requests).or
        (lastDelay (s.enable a handle 1).requests) := by
  have hswitch (t : AkmSensor) (ht : t.mEnabled = s.mEnabled) :
      t.enable a handle 1 = t.switchBit a k 1 := by
    rw [t.enable_eq a handle 1 k hk, if_neg]
    rw [ht]
    simp only [enabled] at hoff
    simp [hoff]
  rw [akmSetDelay_stored s hk hns, akmSetDelay_stored _ hk hns, hswitch (stored s k ns) rfl,
    hswitch s rfl]
  by_cases hfd : (s.controlFd a).isSome = true
  · have hfd' : (stored (switched s a k 1) k ns).devFd.isSome = true := by
      show (if (switched s a k 1).mEnabled = 0 then none else s.controlFd a).isSome = true
      rw [if_neg (switched_on s a k)]
      exact hfd
    rw [switchBit_served ha s hfd, switchBit_served ha (stored s k ns) hfd,
      updateDelay_served (stored (switched s a k 1) k ns) hd (fun _ => hfd')]
    have hon : (stored (switched s a k 1) k ns).mEnabled ≠ 0 := switched_on s a k
    simp only [if_pos hon, if_pos (switched_on _ a k), lastDelay_pair]
    rw [show lastDelay [_] = some _ from lastDelay_concat [] _]
    rfl
  · have hnone : s.controlFd a = none := by simpa using hfd
    have hrefused : s.mEnabled = 0 ∨ s.devFd = none := by
      by_cases hon : s.mEnabled = 0
      · exact Or.inl hon
      · rw [AkmSensor.controlFd, if_neg hon] at hnone
        exact Or.inr hnone
    rw [switchBit_unopened s hnone, switchBit_unopened (stored s k ns) hnone,
      updateDelay_refused (stored s k ns) hrefused, updateDelay_refused _ (.inr rfl)]

end Compass

/-! ## The accelerometer and the gyroscope -/

section Drivers

variable {a : Answers} {d : DelayAnswers} {ns : BitVec 64} {period : BitVec 32}

theorem delayIoctl_taken (hd : ∀ request, d.refused request = none) (devFd : Option ℕ)
    (request : DelayRequest) : delayIoctl d devFd request = 0 ↔ devFd.isSome = true := by
  cases devFd with
  | none => simp [delayIoctl, EBADF]
  | some fd => simp [delayIoctl, hd]

theorem switchDevice_served (ha : ∀ request, a.refused request = none) (driver : Driver)
    (devFd : Option ℕ) (request : Request) :
    (switchDevice a driver devFd 0 1 request).devFd = openDevice a driver devFd ∧
      ((switchDevice a driver devFd 0 1 request).flag ≠ 0 ↔
        (openDevice a driver devFd).isSome = true) := by
  have htaken := ioctl_taken a (openDevice a driver devFd) request
  refine ⟨rfl, ?_⟩
  show (if ioctl a (openDevice a driver devFd) request = 0 then (1 : ℤ) else 0) ≠ 0 ↔ _
  rw [if_congr htaken rfl rfl]
  by_cases hopen : (openDevice a driver devFd).isSome = true
  · simp [hopen, ha]
  · simp [hopen]

theorem periods_eq_iff {before after : Prop} [Decidable before] [Decidable after]
    (h : before → after) (delay : BitVec 32) :
    (if before then delay else period) = (if after then delay else period) ↔
      period = delay ∨ ¬ after ∨ before := by
  by_cases hb : before
  · simp [hb, h hb]
  · by_cases ha : after <;> simp [hb, ha]

theorem openDevice_none (driver : Driver) (devFd : Option ℕ) :
    openDevice a driver devFd = none ↔ ¬ (openDevice a driver devFd).isSome = true := by
  simp

theorem acceleration_order (ha : ∀ request, a.refused request = none)
    (hd : ∀ request, d.refused request = none) (hns : ¬ ns.toInt < 0) (s : AccelerationSensor)
    (hoff : s.mEnabled = 0) :
    accelerationPeriod s d ns period = accelerationPeriod (s.enable a 1).sensor d ns period ↔
      period = delayOf ns ∨ openDevice a .acceleration s.devFd = none ∨
        (s.mOrientationEnabled ≠ 0 ∧ s.devFd.isSome = true) := by
  have hsensor : (s.enable a 1).sensor =
      let r := switchDevice a .acceleration s.devFd 0 1 (.KXTF9_IOCTL_SET_ENABLE 1)
      { s with devFd := r.devFd, mEnabled := r.flag } := by
    simp [AccelerationSensor.enable, flagOf, hoff]
  obtain ⟨hfd, hflag⟩ := switchDevice_served ha .acceleration s.devFd (.KXTF9_IOCTL_SET_ENABLE 1)
  rw [openDevice_none, ← periods_eq_iff]
  · have hon : (¬ (switchDevice a .acceleration s.devFd 0 1 (.KXTF9_IOCTL_SET_ENABLE 1)).flag = 0 ∨
        ¬ s.mOrientationEnabled = 0) ∧ (openDevice a .acceleration s.devFd).isSome = true ↔
        (openDevice a .acceleration s.devFd).isSome = true :=
      and_iff_right_of_imp (fun hopen => .inl (hflag.mpr hopen))
    simp only [accelerationPeriod, hsensor, hns, not_false_eq_true, true_and, delayIoctl_taken hd,
      hfd, hoff, ne_eq, not_true_eq_false, false_or, hon]
  · rintro ⟨-, hopen⟩
    rw [openDevice_of_some a .acceleration hopen]
    exact hopen

theorem gyro_order (ha : ∀ request, a.refused request = none)
    (hd : ∀ request, d.refused request = none) (hns : ¬ ns.toInt < 0) (s : GyroSensor)
    (hoff : s.mEnabled = 0) :
    gyroPeriod s d ns period = gyroPeriod (s.enable a 1).sensor d ns period ↔
      period = delayOf ns ∨ openDevice a .gyro s.devFd = none ∨ s.devFd.isSome = true := by
  have hsensor : (s.enable a 1).sensor =
      let r := switchDevice a .gyro s.devFd 0 1 (.L3G4200D_IOCTL_SET_ENABLE 1)
      { s with devFd := r.devFd, mEnabled := r.flag } := by
    simp [GyroSensor.enable, flagOf, hoff]
  obtain ⟨hfd, -⟩ := switchDevice_served ha .gyro s.devFd (.L3G4200D_IOCTL_SET_ENABLE 1)
  rw [openDevice_none, ← periods_eq_iff]
  · simp only [gyroPeriod, hsensor, hns, not_false_eq_true, true_and, delayIoctl_taken hd, hfd]
  · intro hopen
    rw [openDevice_of_some a .gyro hopen]
    exact hopen

end Drivers

/-! ## The board -/

section Orders

variable (s : SensorsPollContext) {a : Answers} {d : DelayAnswers} {handle : ℤ} {ns : BitVec 64}

theorem accepted_silent (rs : List Request) (devFd : Option ℕ) {request : Request}
    (h : delayArgument request = none) :
    lastDelay (rs ++ accepted a devFd request) = lastDelay rs := by
  rw [accepted]
  split_ifs
  · simp [lastDelay, List.filterMap_append, h]
  · rw [List.append_nil]

theorem orientation_silent (rs : List Request) (x : AccelerationSensor) (en : ℤ) :
    lastDelay (rs ++ (x.enableOrientation a en).requests) = lastDelay rs := by
  simp only [AccelerationSensor.enableOrientation]
  split_ifs
  · rw [List.append_nil]
  · exact accepted_silent rs _ rfl
  · rw [List.append_nil]

theorem activate_compass (h : handleToDriver handle = some .akm) (en : ℤ) :
    (activate s a handle en).2.akm = (s.akm.enable a handle en).sensor ∧
      lastDelay (activate s a handle en).2.requests =
        lastDelay (s.requests ++ (s.akm.enable a handle en).requests) := by
  have hperformed : (performed s a .akm handle en).2.akm = (s.akm.enable a handle en).sensor ∧
      lastDelay (performed s a .akm handle en).2.requests =
        lastDelay (s.requests ++ (s.akm.enable a handle en).requests) := by
    simp only [performed]
    split_ifs
    · exact ⟨rfl, orientation_silent _ _ en⟩
    · exact ⟨rfl, rfl⟩
  rw [activate_eq s a handle en .akm h]
  split_ifs
  · exact hperformed
  · exact hperformed

theorem setDelay_compass (h : handleToDriver handle = some .akm) :
    (SensorDescriptors.setDelay s d handle ns).2 = { s with
      akm := (akmSetDelay s.akm d handle ns).sensor
      requests := s.requests ++ (akmSetDelay s.akm d handle ns).requests } := by
  simp only [SensorDescriptors.setDelay, h]

theorem compass_commutes (b : Board) (ho : Obliging a d) (hd : handleToDriver handle = some .akm)
    {k : Fin 3} (hk : AkmSensor.what handle = some k) (hoff : enabled b.context.akm k = false)
    (hns : ¬ ns.toInt < 0) : Commute b a d handle ns := by
  have horder := compass_order b.context.akm ho.activate ho.compass hk hoff hns
  obtain ⟨hsensor, hrequests⟩ := activate_compass b.context (a := a) hd 1
  have hlast : lastDelay
      (activate (SensorDescriptors.setDelay b.context d handle ns).2 a handle 1).2.requests =
      lastDelay (SensorDescriptors.setDelay (activate b.context a handle 1).2 d handle ns).2.requests
      := by
    rw [(activate_compass _ hd 1).2, setDelay_compass _ hd, setDelay_compass _ hd]
    simp only [lastDelay_append, hsensor] at hrequests ⊢
    rw [hrequests, ← Option.or_assoc, horder, Option.or_assoc]
  have ha : ¬ some Driver.akm = some .acceleration := by decide
  have hg : ¬ some Driver.akm = some .gyro := by decide
  simp only [Commute, Board.periods, Board.setDelay, Board.activate, hd, if_neg ha, if_neg hg,
    hlast]

theorem activate_acceleration :
    (activate s a ID_A 1).2.acceleration = (s.acceleration.enable a 1).sensor := by
  rw [activate_eq s a ID_A 1 .acceleration rfl, performed_single s a 1 _ _ (by decide)]
  split_ifs <;> rfl

theorem activate_gyro : (activate s a ID_G 1).2.gyro = (s.gyro.enable a 1).sensor := by
  rw [activate_eq s a ID_G 1 .gyro rfl, performed_single s a 1 _ _ (by decide)]
  split_ifs <;> rfl

theorem acceleration_commutes (b : Board) (ho : Obliging a d) (hns : ¬ ns.toInt < 0)
    (hoff : b.context.acceleration.mEnabled = 0) : Commute b a d ID_A ns ↔
      b.acceleration = delayOf ns ∨
      openDevice a .acceleration b.context.acceleration.devFd = none ∨
      (b.context.acceleration.mOrientationEnabled ≠ 0 ∧
        b.context.acceleration.devFd.isSome = true) := by
  have hsame (t : SensorsPollContext) : (SensorDescriptors.setDelay t d ID_A ns).2 = t := rfl
  have hd : handleToDriver ID_A = some .acceleration := rfl
  have hg : ¬ some Driver.acceleration = some .gyro := by decide
  rw [← acceleration_order ho.activate ho.setDelay hns b.context.acceleration hoff,
    ← activate_acceleration]
  simp only [Commute, Board.periods, Board.setDelay, Board.activate, hsame, hd, if_true, if_neg hg,
    Periods.mk.injEq, and_true]

theorem gyro_commutes (b : Board) (ho : Obliging a d) (hns : ¬ ns.toInt < 0)
    (hoff : b.context.gyro.mEnabled = 0) : Commute b a d ID_G ns ↔
      b.gyro = delayOf ns ∨ openDevice a .gyro b.context.gyro.devFd = none ∨
      b.context.gyro.devFd.isSome = true := by
  have hsame (t : SensorsPollContext) : (SensorDescriptors.setDelay t d ID_G ns).2 = t := rfl
  have hd : handleToDriver ID_G = some .gyro := rfl
  have hacc : ¬ some Driver.gyro = some .acceleration := by decide
  rw [← gyro_order ho.activate ho.setDelay hns b.context.gyro hoff, ← activate_gyro]
  simp only [Commute, Board.periods, Board.setDelay, Board.activate, hsame, hd, if_true,
    if_neg hacc, Periods.mk.injEq, and_true, true_and]

end Orders

theorem commute_iff (b : Board) (a : Answers) (d : DelayAnswers) (handle : ℤ) (ns : BitVec 64)
    (ho : Obliging a d) (hoff : Disabled b.context handle) (hns : 0 ≤ ns.toInt) :
    Commute b a d handle ns ↔ Settles b a handle ns := by
  have hns : ¬ ns.toInt < 0 := not_lt.mpr hns
  rcases hoff with ⟨rfl, hoff⟩ | ⟨rfl, hoff⟩ | ⟨rfl, hoff⟩ | ⟨rfl, hoff⟩
  · rw [acceleration_commutes b ho hns hoff]
    simp [Settles, ID_A, ID_M, ID_O, ID_G]
  · exact iff_of_true (compass_commutes b ho rfl (k := AkmSensor.MagneticField) rfl hoff hns)
      (.inl rfl)
  · exact iff_of_true (compass_commutes b ho rfl (k := AkmSensor.Orientation) rfl hoff hns)
      (.inr (.inl rfl))
  · rw [gyro_commutes b ho hns hoff]
    simp [Settles, ID_A, ID_M, ID_O, ID_G]

def idleBoard : Board := ⟨.new idleProbe, 0, 0, 0⟩

theorem idle_obliging : Obliging willing ⟨willing, fun _ => none⟩ :=
  ⟨fun _ => rfl, fun _ => rfl, fun _ => rfl⟩

theorem commute_compass : Commute idleBoard willing ⟨willing, fun _ => none⟩ ID_M 20000000 :=
  (commute_iff _ _ _ _ _ idle_obliging (.inr (.inl ⟨rfl, by decide +kernel⟩)) (by decide)).mpr
    (.inl rfl)

/-- A rate of 20 ms set before the accelerometer is switched on is lost. -/
theorem acceleration_not_commute : ¬ ∀ b a d handle ns, Obliging a d → Disabled b.context handle →
    0 ≤ BitVec.toInt ns → ns.toInt/1000000 < 2^15 → Commute b a d handle ns := by
  intro h
  have hc := h idleBoard willing ⟨willing, fun _ => none⟩ ID_A 20000000 idle_obliging
    (.inl ⟨rfl, rfl⟩) (by decide) (by decide)
  simp only [Commute] at hc
  exact absurd hc (by decide +kernel)

end Wingray.SensorRates
