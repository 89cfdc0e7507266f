import Wingray.SensorSwitch

/-!
# The power of the accelerometer

The accelerometer has two users, its own clients and the orientation sensor.
Its hardware is on after the last accepted `KXTF9_IOCTL_SET_ENABLE` with a
nonzero argument, whichever user sent it.
-/

set_option autoImplicit false

namespace Wingray.SensorPower
open Wingray.SensorSwitch

def setEnable (flags : ℤ) : Request → ℤ
  | .KXTF9_IOCTL_SET_ENABLE flags => flags
  | _ => flags

/-- The argument of the last accepted `KXTF9_IOCTL_SET_ENABLE`, from the one
the hardware started with. -/
def powered (flags : ℤ) (requests : List Request) : ℤ := requests.foldl setEnable flags

def Consistent (flags : ℤ) (s : AccelerationSensor) : Prop :=
  flags ≠ 0 ↔ s.mEnabled ≠ 0 ∨ s.mOrientationEnabled ≠ 0

theorem powered_append (flags : ℤ) (rs qs : List Request) :
    powered flags (rs++qs) = powered (powered flags rs) qs :=
  List.foldl_append

theorem flagOf_ne_zero (en : ℤ) : flagOf en ≠ 0 ↔ en ≠ 0 := by
  simp only [flagOf]
  split_ifs with h
  · exact iff_of_true one_ne_zero h
  · exact iff_of_false (fun h0 => h0 rfl) h

theorem flagOf_zero : flagOf 0 = 0 := by
  simp [flagOf]

/-! ## One user -/

theorem switchDevice_requests (a : Answers) (d : Driver) (devFd : Option ℕ) (flag flags : ℤ)
    (request : Request) : (switchDevice a d devFd flag flags request).requests =
      if (switchDevice a d devFd flag flags request).err = 0 then [request] else [] := rfl

theorem enable_consistent (flags : ℤ) (s : AccelerationSensor) (a : Answers) (en : ℤ)
    (h : Consistent flags s) :
    Consistent (powered flags (s.enable a en).requests) (s.enable a en).sensor := by
  simp only [AccelerationSensor.enable]
  by_cases hf : flagOf en ≠ s.mEnabled
  · by_cases ho : s.mOrientationEnabled ≠ 0 ∧ en = 0
    · -- the other user keeps the hardware on
      simp only [if_pos hf, if_pos ho]
      have hon : flags ≠ 0 := h.mpr (.inr ho.1)
      exact iff_of_true hon (.inr ho.1)
    · simp only [if_pos hf, if_neg ho, Consistent]
      by_cases he : (switchDevice a .acceleration s.devFd s.mEnabled (flagOf en)
          (.KXTF9_IOCTL_SET_ENABLE (flagOf en))).err = 0
      · rw [switchDevice_requests, if_pos he, switchDevice_taken _ _ _ _ _ _ he]
        constructor
        · exact .inl
        · rintro (hen | hor)
          · exact hen
          · exact (flagOf_ne_zero en).mpr (fun hen => ho ⟨hor, hen⟩)
      · rw [switchDevice_requests, if_neg he, switchDevice_kept _ _ _ _ _ _ he]
        exact h
  · simp only [if_neg hf]
    exact h

def exchanged (s : AccelerationSensor) : AccelerationSensor :=
  ⟨s.devFd, s.mOrientationEnabled, s.mEnabled⟩

theorem consistent_exchanged (flags : ℤ) (s : AccelerationSensor) :
    Consistent flags (exchanged s) ↔ Consistent flags s := by
  simp only [Consistent, exchanged]
  rw [or_comm]

theorem enableOrientation_mirror (s : AccelerationSensor) (a : Answers) (en : ℤ) :
    s.enableOrientation a en =
      ⟨((exchanged s).enable a en).err, exchanged ((exchanged s).enable a en).sensor,
        ((exchanged s).enable a en).requests⟩ := by
  have hx : (exchanged s).enable a en =
      if flagOf en ≠ s.mOrientationEnabled then
        if s.mEnabled ≠ 0 ∧ en = 0 then ⟨0, ⟨s.devFd, flagOf en, s.mEnabled⟩, []⟩
        else
          let r := switchDevice a .acceleration s.devFd s.mOrientationEnabled (flagOf en)
            (.KXTF9_IOCTL_SET_ENABLE (flagOf en))
          ⟨r.err, ⟨r.devFd, r.flag, s.mEnabled⟩, r.requests⟩
      else ⟨0, exchanged s, []⟩ := rfl
  rw [hx, AccelerationSensor.enableOrientation]
  by_cases hf : flagOf en ≠ s.mOrientationEnabled
  · by_cases ho : s.mEnabled ≠ 0 ∧ en = 0
    · simp only [if_pos hf, if_pos ho, exchanged]
    · simp only [if_pos hf, if_neg ho, exchanged]
  · simp only [if_neg hf, exchanged]

theorem enableOrientation_consistent (flags : ℤ) (s : AccelerationSensor) (a : Answers) (en : ℤ)
    (h : Consistent flags s) :
    Consistent (powered flags (s.enableOrientation a en).requests)
      (s.enableOrientation a en).sensor := by
  have hm := enable_consistent flags (exchanged s) a en ((consistent_exchanged flags s).mpr h)
  rw [enableOrientation_mirror]
  exact (consistent_exchanged _ _).mpr hm

/-! ## The other sensors leave the accelerometer alone -/

def Quiet (requests : List Request) : Prop := ∀ flags, powered flags requests = flags

theorem quiet_accepted (a : Answers) (devFd : Option ℕ) (request : Request)
    (h : ∀ flags, setEnable flags request = flags) : Quiet (accepted a devFd request) := by
  intro flags
  simp only [accepted]
  split_ifs
  · exact h flags
  · rfl

theorem quiet_append {rs qs : List Request} (hr : Quiet rs) (hq : Quiet qs) : Quiet (rs++qs) := by
  intro flags
  rw [powered_append, hr, hq]

theorem quiet_ite {rs : List Request} (p : Prop) [Decidable p] (hr : Quiet rs) :
    Quiet (if p then rs else []) := by
  split_ifs
  · exact hr
  · exact fun _ => rfl

theorem light_quiet (s : LightSensor) (a : Answers) (en : ℤ) : Quiet (s.enable a en).requests := by
  simp only [LightSensor.enable]
  split_ifs
  · exact quiet_accepted _ _ _ (fun _ => rfl)
  · exact fun _ => rfl

theorem gyro_quiet (s : GyroSensor) (a : Answers) (en : ℤ) : Quiet (s.enable a en).requests := by
  simp only [GyroSensor.enable]
  split_ifs
  · exact quiet_accepted _ _ _ (fun _ => rfl)
  · exact fun _ => rfl

theorem command_quiet (k : Fin 3) (state : BitVec 16) (flags : ℤ) :
    setEnable flags (AkmSensor.command k state) = flags := by
  simp only [AkmSensor.command]
  split_ifs <;> rfl

theorem updateDelay_quiet (s : AkmSensor) (a : Answers) : Quiet (s.updateDelay a).2 := by
  simp only [AkmSensor.updateDelay]
  split_ifs
  · exact quiet_accepted _ _ _ (fun _ => rfl)
  · exact fun _ => rfl

theorem akm_quiet (s : AkmSensor) (a : Answers) (handle en : ℤ) :
    Quiet (s.enable a handle en).requests := by
  simp only [AkmSensor.enable]
  split
  · exact fun _ => rfl
  · split_ifs
    · simp only [AkmSensor.switchBit]
      apply quiet_append
      · exact quiet_accepted _ _ _ (command_quiet _ _)
      · exact quiet_ite _ (updateDelay_quiet _ _)
    · exact fun _ => rfl

/-! ## Calls of `activate` -/

def On (flags : ℤ) (s : SensorsPollContext) : Prop := powered flags s.requests ≠ 0

def Shared (flags : ℤ) (s : SensorsPollContext) : Prop :=
  Consistent (powered flags s.requests) s.acceleration

theorem shared_on (flags : ℤ) (s : SensorsPollContext) (h : Shared flags s) :
    On flags s ↔ s.acceleration.mEnabled ≠ 0 ∨ s.acceleration.mOrientationEnabled ≠ 0 := h

theorem enableSensor_shared (flags : ℤ) (s : SensorsPollContext) (a : Answers) (d : Driver)
    (handle enabled : ℤ) (h : Shared flags s) :
    Shared flags (enableSensor s a d handle enabled).2 := by
  cases d with
  | acceleration =>
    simp only [Shared, enableSensor]
    rw [powered_append]
    exact enable_consistent _ s.acceleration a enabled h
  | light =>
    simp only [Shared, enableSensor]
    rw [powered_append, light_quiet]
    exact h
  | akm =>
    simp only [Shared, enableSensor]
    rw [powered_append, akm_quiet]
    exact h
  | gyro =>
    simp only [Shared, enableSensor]
    rw [powered_append, gyro_quiet]
    exact h

theorem enableOrientation_shared (flags : ℤ) (s : SensorsPollContext) (a : Answers)
    (enabled : ℤ) (h : Shared flags s) : Shared flags (enableOrientation s a enabled).2 := by
  simp only [Shared, enableOrientation]
  rw [powered_append]
  exact enableOrientation_consistent _ s.acceleration a enabled h

theorem performed_shared (flags : ℤ) (s : SensorsPollContext) (a : Answers) (d : Driver)
    (handle enabled : ℤ) (h : Shared flags s) :
    Shared flags (performed s a d handle enabled).2 := by
  have hs := enableSensor_shared flags s a d handle enabled h
  simp only [performed]
  split_ifs
  · exact enableOrientation_shared flags _ a enabled hs
  · exact hs

theorem activate_shared (flags : ℤ) (s : SensorsPollContext) (a : Answers)
    (handle enabled : ℤ) (h : Shared flags s) : Shared flags (activate s a handle enabled).2 := by
  cases hd : handleToDriver handle with
  | none =>
    simp only [activate, hd]
    exact h
  | some d =>
    have hp := performed_shared flags s a d handle enabled h
    simp only [performed] at hp
    simp only [activate, hd]
    split_ifs at hp ⊢ <;> exact hp

structure Call where
  answers : Answers
  handle : ℤ
  enabled : ℤ

def activateAll (s : SensorsPollContext) (calls : List Call) : SensorsPollContext :=
  calls.foldl (fun s c => (activate s c.answers c.handle c.enabled).2) s

theorem activateAll_shared (flags : ℤ) (s : SensorsPollContext) (calls : List Call)
    (h : Shared flags s) : Shared flags (activateAll s calls) := by
  induction calls generalizing s with
  | nil => exact h
  | cons c calls ih => exact ih _ (activate_shared flags s c.answers c.handle c.enabled h)

/-! ## Turning a user off -/

theorem activate_performed (s : SensorsPollContext) (a : Answers) (d : Driver)
    (handle enabled : ℤ) (hd : handleToDriver handle = some d) :
    (activate s a handle enabled).1 = (performed s a d handle enabled).1 ∧
    (activate s a handle enabled).2.acceleration =
      (performed s a d handle enabled).2.acceleration := by
  simp only [activate, performed, hd]
  split_ifs <;> exact ⟨rfl, rfl⟩

theorem activate_A (s : SensorsPollContext) (a : Answers) (enabled : ℤ) :
    ((activate s a ID_A enabled).1 = 0 →
      (activate s a ID_A enabled).2.acceleration.mEnabled = flagOf enabled) ∧
    (activate s a ID_A enabled).2.acceleration.mOrientationEnabled =
      s.acceleration.mOrientationEnabled := by
  have hsound := acceleration_enable_sound s.acceleration a enabled
  have hact := activate_performed s a .acceleration ID_A enabled rfl
  rw [performed_single s a enabled _ _ (by decide)] at hact
  rw [hact.1, hact.2]
  exact ⟨hsound.1, hsound.2.2⟩

theorem activate_O (s : SensorsPollContext) (a : Answers) (enabled : ℤ) :
    ((activate s a ID_O enabled).1 = 0 →
      (activate s a ID_O enabled).2.acceleration.mOrientationEnabled = flagOf enabled) ∧
    (activate s a ID_O enabled).2.acceleration.mEnabled = s.acceleration.mEnabled := by
  have hsound := acceleration_enableOrientation_sound s.acceleration a enabled
  have hact := activate_performed s a .akm ID_O enabled rfl
  rw [hact.1, hact.2]
  by_cases he : (enableSensor s a .akm ID_O enabled).1 = 0
  · have hp : performed s a .akm ID_O enabled =
        enableOrientation (enableSensor s a .akm ID_O enabled).2 a enabled :=
      if_pos ⟨he, rfl⟩
    rw [hp]
    exact ⟨hsound.1, hsound.2.2⟩
  · have hp : performed s a .akm ID_O enabled = enableSensor s a .akm ID_O enabled :=
      if_neg (fun h => he h.1)
    rw [hp]
    exact ⟨fun h => absurd h he, rfl⟩

/-- The hardware is on exactly when one of the two users wants it; a user that
goes leaves it on under the other, and the last one takes it down. -/
structure PowerFollowsUsers (flags : ℤ) (s : SensorsPollContext) : Prop where
  on_iff : On flags s ↔
    s.acceleration.mEnabled ≠ 0 ∨ s.acceleration.mOrientationEnabled ≠ 0
  kept_for_orientation : ∀ a, s.acceleration.mOrientationEnabled ≠ 0 →
    On flags (activate s a ID_A 0).2
  kept_for_clients : ∀ a, s.acceleration.mEnabled ≠ 0 → On flags (activate s a ID_O 0).2
  last_client_off : ∀ a, s.acceleration.mOrientationEnabled = 0 →
    (activate s a ID_A 0).1 = 0 → ¬ On flags (activate s a ID_A 0).2
  last_orientation_off : ∀ a, s.acceleration.mEnabled = 0 →
    (activate s a ID_O 0).1 = 0 → ¬ On flags (activate s a ID_O 0).2

theorem shared_follows_users (flags : ℤ) (s : SensorsPollContext) (h : Shared flags s) :
    PowerFollowsUsers flags s := by
  have hshared := fun a handle => activate_shared flags s a handle 0 h
  have hA := fun a => activate_A s a 0
  have hO := fun a => activate_O s a 0
  constructor
  case on_iff => exact shared_on flags s h
  case kept_for_orientation =>
    intro a ho
    rw [shared_on flags _ (hshared a ID_A), (hA a).2]
    exact .inr ho
  case kept_for_clients =>
    intro a hm
    rw [shared_on flags _ (hshared a ID_O), (hO a).2]
    exact .inl hm
  case last_client_off =>
    intro a ho he
    rw [shared_on flags _ (hshared a ID_A), (hA a).1 he, (hA a).2]
    exact fun hon => hon.elim (fun h => h flagOf_zero) (fun h => h ho)
  case last_orientation_off =>
    intro a hm he
    rw [shared_on flags _ (hshared a ID_O), (hO a).1 he, (hO a).2]
    exact fun hon => hon.elim (fun h => h hm) (fun h => h flagOf_zero)

theorem power_follows_users (flags : ℤ) (s : SensorsPollContext) (calls : List Call)
    (h : Shared flags s) : PowerFollowsUsers flags (activateAll s calls) :=
  shared_follows_users flags _ (activateAll_shared flags s calls h)

theorem power_follows_users_fresh : PowerFollowsUsers 0
    (activateAll (.new idleProbe)
      [⟨lightRefuses, ID_A, 1⟩, ⟨lightRefuses, ID_O, 1⟩, ⟨lightRefuses, ID_A, 0⟩]) :=
  power_follows_users 0 _ _ (by simp only [Shared, Consistent]; decide +kernel)

end Wingray.SensorPower
