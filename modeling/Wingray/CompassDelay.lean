import Wingray.SensorDescriptors

/-!
# The delay of the compass driver

The compass serves several sensors with one rate. Whenever a sensor is switched
or asks for another delay, the smallest of the delays is handed to the driver,
in milliseconds and in 16 bits.
-/

set_option autoImplicit false

namespace Wingray.CompassDelay
open Wingray.GuardedRun Wingray.SensorSwitch Wingray.SensorDescriptors

def delayArgument : Request → Option (BitVec 16)
  | .ECS_IOCTL_APP_SET_DELAY delay => some delay
  | _ => none

def lastDelay (requests : List Request) : Option (BitVec 16) :=
  (requests.filterMap delayArgument).getLast?

inductive Call
  | enable (a : Answers) (handle en : ℤ)
  | setDelay (a : DelayAnswers) (handle : ℤ) (ns : BitVec 64)

/-- `err` is the result of the last call, and `requested` is history: the delay
each sensor was last asked for, which is 200 ms before. -/
structure Session where
  sensor : AkmSensor
  requests : List Request
  err : Option ℤ
  requested : Fin 3 → ℕ

def constructed (p : Probe) : Session where
  sensor := .new p
  requests := []
  err := none
  requested := fun _ => 200000000

def requestedAfter (requested : Fin 3 → ℕ) : Call → Fin 3 → ℕ
  | .enable _ _ _ => requested
  | .setDelay _ handle ns =>
    match AkmSensor.what handle with
    | none => requested
    | some k => Function.update requested k ns.toNat

def perform (s : AkmSensor) : Call → Done AkmSensor
  | .enable a handle en => s.enable a handle en
  | .setDelay a handle ns => akmSetDelay s a handle ns

def step (s : Session) (call : Call) : Option Session :=
  let r := perform s.sensor call
  some ⟨r.sensor, s.requests ++ r.requests, some r.err, requestedAfter s.requested call⟩

def Addressed (handle : ℤ) : Prop := handle = ID_M ∨ handle = ID_O

/-- A call for the compass or the orientation, with no negative delay, of which
no ioctl fails on an open descriptor. -/
def Served : Call → Prop
  | .enable a handle _ => Addressed handle ∧ ∀ request, a.refused request = none
  | .setDelay a handle ns =>
    Addressed handle ∧ (∀ request, a.akm.refused request = none) ∧ 0 ≤ ns.toInt

def delays (on : Fin 3 → Bool) (requested : Fin 3 → ℕ) : Set ℕ :=
  {ns | ∃ k, on k = true ∧ requested k = ns}

def enabled (s : AkmSensor) (k : Fin 3) : Bool := s.mEnabled.getLsbD k.val

def Follows (s : Session) : Prop :=
  s.err = some 0 → s.sensor.mEnabled ≠ 0 → ∃ delay least, lastDelay s.requests = some delay ∧
    IsLeast (delays (enabled s.sensor) s.requested) least ∧ delay.toInt = least/1000000

def enabledAfter (s : AkmSensor) : Call → Fin 3 → Bool
  | .enable _ handle en, k => if AkmSensor.what handle = some k then en ≠ 0 else enabled s k
  | .setDelay _ _ _, k => enabled s k

def Unchanging (s : AkmSensor) : Call → Prop
  | .enable _ handle en => ∀ k, AkmSensor.what handle = some k → enabled s k = decide (en ≠ 0)
  | .setDelay _ _ _ => False

/-- A call that changes something while a sensor is on, or switches it on,
leaves one of them with less than 2^15 ms; and before a delay has been handed
to the driver, no call finds a sensor as it asks for. -/
def Fits (s : Session) (call : Call) : Prop :=
  (Unchanging s.sensor call → s.sensor.mEnabled ≠ 0 → lastDelay s.requests ≠ none) ∧
    (¬ Unchanging s.sensor call → (∃ k, enabledAfter s.sensor call k = true) →
      ∃ ns ∈ delays (enabledAfter s.sensor call) (requestedAfter s.requested call),
        ns < 2^15*1000000)

/-! ## The smallest delay -/

theorem foldl_least {ι α : Type*} [LinearOrder α] (p : ι → Prop) [DecidablePred p] (f : ι → α)
    (l : List ι) (top : α) :
    let least := l.foldl (fun w i => if p i then min w (f i) else w) top
    least ≤ top ∧ (∀ i ∈ l, p i → least ≤ f i) ∧ (least = top ∨ ∃ i ∈ l, p i ∧ f i = least) := by
  induction l generalizing top with
  | nil => simp
  | cons i l ih =>
    simp only [List.foldl_cons]
    by_cases hi : p i
    · obtain ⟨htop, hle, hmem⟩ := ih (min top (f i))
      rw [if_pos hi]
      refine ⟨htop.trans (min_le_left top (f i)), ?_, ?_⟩
      · rintro j (_ | ⟨_, hj⟩) hp
        · exact htop.trans (min_le_right top (f i))
        · exact hle j hj hp
      · rcases hmem with hleast | ⟨j, hj, hp, hleast⟩
        · rcases min_choice top (f i) with hmin | hmin
          · exact Or.inl (hleast.trans hmin)
          · exact Or.inr ⟨i, List.mem_cons_self, hi, (hleast.trans hmin).symm⟩
        · exact Or.inr ⟨j, List.mem_cons_of_mem i hj, hp, hleast⟩
    · obtain ⟨htop, hle, hmem⟩ := ih top
      rw [if_neg hi]
      refine ⟨htop, ?_, ?_⟩
      · rintro j (_ | ⟨_, hj⟩) hp
        · exact absurd hp hi
        · exact hle j hj hp
      · rcases hmem with hleast | ⟨j, hj, hp, hleast⟩
        · exact Or.inl hleast
        · exact Or.inr ⟨j, List.mem_cons_of_mem i hj, hp, hleast⟩

section Sensor

variable (s : AkmSensor)

theorem and_bit (k : Fin 3) : s.mEnabled &&& AkmSensor.bit k ≠ 0 ↔ enabled s k = true := by
  have hoff := AkmSensor.stored_iff s.mEnabled k 0
  rw [show (AkmSensor.newState 0).setWidth 32 <<< k.val = 0#32 by simp [AkmSensor.newState]] at hoff
  rw [ne_comm]
  refine (not_congr hoff).trans ?_
  simp [enabled]

theorem wanted_toNat : s.wanted.toNat = (List.finRange 3).foldl
    (fun w i => if enabled s i = true then min w (s.mDelays i).toNat else w) (2^64-1) := by
  rw [AkmSensor.wanted]
  refine (List.foldl_hom BitVec.toNat ?_).symm
  intro w i
  simp only [and_bit]
  split_ifs with hon hless
  · exact min_eq_left (BitVec.lt_def.mp hless).le
  · exact min_eq_right (not_lt.mp (mt BitVec.lt_def.mpr hless))
  · rfl

theorem wanted_isLeast (h : ∃ k, enabled s k = true) :
    IsLeast (delays (enabled s) (fun k => (s.mDelays k).toNat)) s.wanted.toNat := by
  obtain ⟨htop, hle, hmem⟩ := foldl_least (fun i => enabled s i = true)
    (fun i => (s.mDelays i).toNat) (List.finRange 3) (2^64-1)
  rw [← wanted_toNat] at htop hle hmem
  have hlower : ∀ k, enabled s k = true → s.wanted.toNat ≤ (s.mDelays k).toNat :=
    fun k hk => hle k (List.mem_finRange k) hk
  constructor
  · rcases hmem with htop | ⟨k, -, hk, hwanted⟩
    · obtain ⟨k, hk⟩ := h
      have hbound := (s.mDelays k).isLt
      have hk' := hlower k hk
      refine ⟨k, hk, ?_⟩
      show (s.mDelays k).toNat = s.wanted.toNat
      omega
    · exact ⟨k, hk, hwanted⟩
  · rintro ns ⟨k, hk, rfl⟩
    exact hlower k hk

theorem delay_toInt (h : s.wanted.toNat < 2^63) :
    s.delay.toInt = s.wanted.toNat/1000000 ↔ s.wanted.toNat < 2^15*1000000 := by
  have hwanted : s.wanted.toInt = s.wanted.toNat := BitVec.toInt_eq_toNat_of_lt (by omega)
  rw [AkmSensor.delay, BitVec.toInt_ofInt, hwanted,
    Int.tdiv_eq_ediv_of_nonneg (Int.natCast_nonneg _), Int.bmod_def]
  push_cast
  split_ifs <;> omega

theorem updateDelay_served {a : Answers} (ha : ∀ request, a.refused request = none)
    (h : s.mEnabled ≠ 0 → s.devFd.isSome = true) : s.updateDelay a =
      (0, if s.mEnabled ≠ 0 then [.ECS_IOCTL_APP_SET_DELAY s.delay] else []) := by
  by_cases hon : s.mEnabled ≠ 0
  · have htaken := (ioctl_taken a s.devFd (.ECS_IOCTL_APP_SET_DELAY s.delay)).mpr
      ⟨h hon, ha _⟩
    rw [AkmSensor.updateDelay, if_pos hon, if_pos hon, accepted, if_pos htaken, htaken]
  · rw [AkmSensor.updateDelay, if_neg hon, if_neg hon]

end Sensor

/-! ## One call -/

theorem lastDelay_concat (rs : List Request) (delay : BitVec 16) :
    lastDelay (rs ++ [.ECS_IOCTL_APP_SET_DELAY delay]) = some delay := by
  simp [lastDelay, List.filterMap_append, delayArgument]

/-- What a call does when no ioctl fails: nothing, or what it asks for together
with the delay that follows, or nothing because the device cannot be opened. -/
inductive Effect (s : Session) (call : Call) (s' : Session) : Prop
  | unchanged (hsame : Unchanging s.sensor call) (hsensor : s'.sensor = s.sensor)
      (hrequests : s'.requests = s.requests) (hrequested : s'.requested = s.requested)
  | changed (hchange : ¬ Unchanging s.sensor call)
      (hon : enabled s'.sensor = enabledAfter s.sensor call)
      (hlast : s'.sensor.mEnabled ≠ 0 → lastDelay s'.requests = some s'.sensor.delay)
  | unopened (hchange : ¬ Unchanging s.sensor call) (herr : s'.err ≠ some 0)
      (hoff : s'.sensor.mEnabled = 0)

structure Sound (s : Session) : Prop where
  paired : Paired s.sensor.devFd (s.sensor.mEnabled ≠ 0)
  low : ∀ i, 3 ≤ i → s.sensor.mEnabled.getLsbD i = false
  stored : (fun k => (s.sensor.mDelays k).toNat) = s.requested
  signed : ∀ k, s.requested k < 2^63

section Calls

variable {s s' : Session}

theorem Sound.on_iff (h : Sound s) : s.sensor.mEnabled ≠ 0 ↔ ∃ k, enabled s.sensor k = true := by
  constructor
  · intro hon
    by_contra hnone
    push Not at hnone
    apply hon
    apply BitVec.eq_of_getLsbD_eq
    intro i _
    show s.sensor.mEnabled.getLsbD i = (0#32).getLsbD i
    rw [BitVec.getLsbD_zero]
    by_cases hi : i < 3
    · exact Bool.eq_false_iff.mpr (hnone ⟨i, hi⟩)
    · exact h.low i (not_lt.mp hi)
  · rintro ⟨k, hk⟩ hzero
    simp [enabled, hzero] at hk

theorem enabled_switched {t : AkmSensor} {k : Fin 3} {a : Answers} {handle en : ℤ}
    (hk : AkmSensor.what handle = some k)
    (ht : t.mEnabled = AkmSensor.withBit s.sensor.mEnabled k (AkmSensor.newState en)) :
    enabled t = enabledAfter s.sensor (.enable a handle en) := by
  funext j
  rw [enabled, ht, AkmSensor.withBit_getLsbD, enabledAfter, hk]
  simp [Fin.ext_iff, eq_comm, enabled]

def switched (t : AkmSensor) (a : Answers) (k : Fin 3) (en : ℤ) : AkmSensor :=
  let mEnabled := AkmSensor.withBit t.mEnabled k (AkmSensor.newState en)
  { t with devFd := if mEnabled = 0 then none else t.controlFd a, mEnabled := mEnabled }

theorem opened_eq (t : AkmSensor) (a : Answers) :
    (if t.mEnabled = 0 then { t with devFd := openDevice a .akm t.devFd } else t) =
      { t with devFd := t.controlFd a } := by
  simp only [AkmSensor.controlFd]
  split_ifs <;> rfl

theorem switchBit_served {a : Answers} (ha : ∀ request, a.refused request = none)
    (t : AkmSensor) (hfd : (t.controlFd a).isSome = true) (k : Fin 3) (en : ℤ) :
    t.switchBit a k en =
      ⟨0, switched t a k en, AkmSensor.command k (AkmSensor.newState en) ::
        if (switched t a k en).mEnabled ≠ 0
        then [.ECS_IOCTL_APP_SET_DELAY (switched t a k en).delay] else []⟩ := by
  have htaken (request : Request) : ioctl a (t.controlFd a) request = 0 :=
    (ioctl_taken a _ request).mpr ⟨hfd, ha request⟩
  have hdelay := updateDelay_served { t with
    devFd := t.controlFd a
    mEnabled := AkmSensor.withBit t.mEnabled k (AkmSensor.newState en) } ha (fun _ => hfd)
  simp only [AkmSensor.switchBit, opened_eq, htaken, accepted, if_true, hdelay, switched]
  split_ifs <;> rfl

theorem switchBit_unopened {a : Answers} (t : AkmSensor) (hfd : t.controlFd a = none) (k : Fin 3)
    (en : ℤ) : t.switchBit a k en = ⟨-EBADF, { t with devFd := none }, []⟩ := by
  have hrefused (request : Request) : ioctl a none request = -EBADF := rfl
  have hfailed : ¬ -EBADF = 0 := by decide
  simp only [AkmSensor.switchBit, opened_eq, hfd, hrefused, accepted, if_neg hfailed, ite_self,
    List.append_nil]

theorem switched_sound {a : Answers} (h : Sound s) (hfd : (s.sensor.controlFd a).isSome = true)
    (k : Fin 3) (en : ℤ) (rs : List Request) (err : Option ℤ) :
    Sound ⟨switched s.sensor a k en, rs, err, s.requested⟩ where
  paired := by
    simp only [switched, Paired]
    split_ifs with hoff
    · simp [hoff]
    · exact iff_of_true hfd hoff
  low := by
    intro i hi
    have hk := k.isLt
    simp only [switched]
    rw [AkmSensor.withBit_getLsbD, if_neg (by omega)]
    exact h.low i hi
  stored := h.stored
  signed := h.signed

theorem what_addressed {handle : ℤ} (h : Addressed handle) :
    ∃ k, AkmSensor.what handle = some k := by
  rcases h with rfl | rfl
  · exact ⟨AkmSensor.MagneticField, rfl⟩
  · exact ⟨AkmSensor.Orientation, rfl⟩

theorem enable_effect {a : Answers} {handle en : ℤ} (h : Sound s)
    (hc : Served (.enable a handle en)) (hs : step s (.enable a handle en) = some s') :
    Effect s (.enable a handle en) s' ∧ Sound s' := by
  obtain ⟨hhandle, ha⟩ := hc
  obtain rfl := Option.some.inj hs
  obtain ⟨k, hk⟩ := what_addressed hhandle
  have hunchanging : Unchanging s.sensor (.enable a handle en) ↔
      s.sensor.mEnabled.getLsbD k.val = decide (en ≠ 0) := by simp [Unchanging, hk, enabled]
  have heq := s.sensor.enable_eq a handle en k hk
  by_cases hsame : s.sensor.mEnabled.getLsbD k.val = decide (en ≠ 0)
  · rw [if_pos hsame] at heq
    simp only [perform, heq, List.append_nil, requestedAfter]
    exact ⟨.unchanged (hunchanging.mpr hsame) rfl rfl rfl, h.paired, h.low, h.stored, h.signed⟩
  · rw [if_neg hsame] at heq
    have hchange := mt hunchanging.mp hsame
    by_cases hfd : (s.sensor.controlFd a).isSome = true
    · rw [switchBit_served ha s.sensor hfd] at heq
      simp only [perform, heq, requestedAfter]
      refine ⟨.changed hchange (enabled_switched hk rfl) ?_, switched_sound h hfd k en _ _⟩
      intro hon
      rw [if_pos hon, List.append_cons]
      exact lastDelay_concat _ _
    · have hoff : s.sensor.mEnabled = 0 := by
        by_contra hon
        rw [AkmSensor.controlFd, if_neg hon] at hfd
        exact hfd (h.paired.mpr hon)
      rw [switchBit_unopened s.sensor (by simpa using hfd)] at heq
      simp only [perform, heq, requestedAfter]
      refine ⟨.unopened hchange ?_ hoff, ?_, h.low, h.stored, h.signed⟩
      · exact fun herr => absurd (Option.some.inj herr) (by decide)
      · simp [Paired, hoff]

theorem setDelay_effect {a : DelayAnswers} {handle : ℤ} {ns : BitVec 64} (h : Sound s)
    (hc : Served (.setDelay a handle ns)) (hs : step s (.setDelay a handle ns) = some s') :
    Effect s (.setDelay a handle ns) s' ∧ Sound s' := by
  obtain ⟨hhandle, ha, hns⟩ := hc
  obtain rfl := Option.some.inj hs
  obtain ⟨k, hk⟩ := what_addressed hhandle
  have hns : ¬ ns.toInt < 0 := not_lt.mpr hns
  have hsigned : ns.toNat < 2^63 := by
    have hbound := ns.isLt
    rw [BitVec.toInt_eq_toNat_cond] at hns
    split_ifs at hns <;> omega
  have heq : perform s.sensor (.setDelay a handle ns) =
      ⟨0, { s.sensor with mDelays := Function.update s.sensor.mDelays k ns },
        if s.sensor.mEnabled ≠ 0 then [.ECS_IOCTL_APP_SET_DELAY
          { s.sensor with mDelays := Function.update s.sensor.mDelays k ns }.delay] else []⟩ := by
    have hupdate := updateDelay_served
      { s.sensor with mDelays := Function.update s.sensor.mDelays k ns } ha h.paired.mpr
    simp only [perform, akmSetDelay, hk, if_neg hns, hupdate]
  simp only [heq, requestedAfter, hk]
  refine ⟨.changed id rfl ?_, h.paired, h.low, ?_, ?_⟩
  · intro hon
    rw [if_pos hon]
    exact lastDelay_concat _ _
  · rw [← h.stored]
    funext j
    simp only [Function.update_apply]
    split_ifs <;> rfl
  · intro j
    simp only [Function.update_apply]
    split_ifs
    · exact hsigned
    · exact h.signed j

theorem step_requested {call : Call} (hs : step s call = some s') :
    s'.requested = requestedAfter s.requested call := by
  obtain rfl := Option.some.inj hs
  rfl

theorem call_effect {call : Call} (h : Sound s) (hc : Served call) (hs : step s call = some s') :
    Effect s call s' ∧ Sound s' := by
  cases call with
  | enable a handle en => exact enable_effect h hc hs
  | setDelay a handle ns => exact setDelay_effect h hc hs

/-! ## Runs -/

/-- While a sensor is on, the delay of the driver, if it has one, is that of
the object, and it fits. -/
structure Inv (s : Session) : Prop extends Sound s where
  held : s.sensor.mEnabled ≠ 0 → ∀ delay, lastDelay s.requests = some delay →
    delay = s.sensor.delay ∧ s.sensor.wanted.toNat < 2^15*1000000

theorem constructed_inv (p : Probe) : Inv (constructed p) where
  paired := akm_new_paired p
  low := by
    intro i hi
    simp only [constructed, AkmSensor.new]
    rw [BitVec.getLsbD_or]
    split_ifs <;> simp [AkmSensor.bit_getLsbD, AkmSensor.MagneticField, AkmSensor.Orientation] <;>
      omega
  stored := rfl
  signed := fun _ => by simp [constructed]
  held := fun _ _ hlast => nomatch hlast

theorem Sound.isLeast (h : Sound s) (hon : s.sensor.mEnabled ≠ 0) :
    IsLeast (delays (enabled s.sensor) s.requested) s.sensor.wanted.toNat := by
  rw [← h.stored]
  exact wanted_isLeast s.sensor (h.on_iff.mp hon)

theorem Sound.delay_fits (h : Sound s) (hon : s.sensor.mEnabled ≠ 0) :
    s.sensor.delay.toInt = s.sensor.wanted.toNat/1000000 ↔
      s.sensor.wanted.toNat < 2^15*1000000 := by
  obtain ⟨k, _, hk⟩ := (h.isLeast hon).1
  apply delay_toInt
  rw [← hk]
  exact h.signed k

theorem Sound.follows_iff (h : Sound s) (herr : s.err = some 0) (hon : s.sensor.mEnabled ≠ 0) :
    Follows s ↔ ∃ delay, lastDelay s.requests = some delay ∧
      delay.toInt = s.sensor.wanted.toNat/1000000 := by
  have hleast := h.isLeast hon
  constructor
  · intro hf
    obtain ⟨delay, least, hlast, hl, hdelay⟩ := hf herr hon
    exact ⟨delay, hlast, by rw [hdelay, hl.unique hleast]⟩
  · rintro ⟨delay, hlast, hdelay⟩ _ _
    exact ⟨delay, _, hlast, hleast, hdelay⟩

theorem Sound.small_iff (h : Sound s) (hon : s.sensor.mEnabled ≠ 0) (bound : ℕ) :
    (∃ ns ∈ delays (enabled s.sensor) s.requested, ns < bound) ↔
      s.sensor.wanted.toNat < bound := by
  have hleast := h.isLeast hon
  constructor
  · rintro ⟨ns, hns, hbound⟩
    exact (hleast.2 hns).trans_lt hbound
  · exact fun hbound => ⟨_, hleast.1, hbound⟩

theorem call_follows_iff {call : Call} (h : Inv s) (hc : Served call)
    (hs : step s call = some s') (herr : s'.err = some 0) : Follows s' ↔ Fits s call := by
  obtain ⟨heffect, hsound⟩ := call_effect h.toSound hc hs
  have hrequested := step_requested hs
  by_cases hon : s'.sensor.mEnabled = 0
  · apply iff_of_true (fun _ hne => absurd hon hne)
    cases heffect with
    | unchanged hsame hsensor _ _ =>
      rw [hsensor] at hon
      exact ⟨fun _ hne => absurd hon hne, fun hne => absurd hsame hne⟩
    | changed hchange henabled _ =>
      refine ⟨fun hsame => absurd hsame hchange, fun _ hsome => ?_⟩
      rw [← henabled] at hsome
      exact absurd hon (hsound.on_iff.mpr hsome)
    | unopened _ hfailed _ => exact absurd herr hfailed
  rw [hsound.follows_iff herr hon]
  cases heffect with
  | unchanged hsame hsensor hrequests _ =>
    rw [hsensor] at hon
    have hfits : Fits s call ↔ lastDelay s.requests ≠ none :=
      ⟨fun hf => hf.1 hsame hon, fun hlast => ⟨fun _ _ => hlast, fun hne => absurd hsame hne⟩⟩
    rw [hfits, hsensor, hrequests, Option.ne_none_iff_exists']
    refine exists_congr (fun delay => and_iff_left_of_imp ?_)
    intro hlast
    obtain ⟨rfl, hbound⟩ := h.held hon delay hlast
    exact (h.delay_fits hon).mpr hbound
  | changed hchange henabled hlast =>
    have hfits : Fits s call ↔ s'.sensor.wanted.toNat < 2^15*1000000 := by
      rw [← hsound.small_iff hon, Fits, ← henabled, ← hrequested]
      have hsome := hsound.on_iff.mp hon
      exact ⟨fun hf => hf.2 hchange hsome, fun hsmall => ⟨fun hsame => absurd hsame hchange,
        fun _ _ => hsmall⟩⟩
    rw [hfits, hlast hon]
    simp [hsound.delay_fits hon]
  | unopened _ hfailed _ => exact absurd herr hfailed

theorem call_inv {call : Call} (h : Inv s) (hc : Served call) (hf : Fits s call)
    (hs : step s call = some s') : Inv s' := by
  obtain ⟨heffect, hsound⟩ := call_effect h.toSound hc hs
  have hrequested := step_requested hs
  refine ⟨hsound, ?_⟩
  intro hon delay hlast
  cases heffect with
  | unchanged _ hsensor hrequests _ =>
    rw [hsensor] at hon ⊢
    rw [hrequests] at hlast
    exact h.held hon delay hlast
  | changed hchange henabled hsent =>
    rw [hsent hon] at hlast
    have hsmall := hf.2 hchange
    rw [← henabled, ← hrequested] at hsmall
    exact ⟨(Option.some.inj hlast).symm,
      (hsound.small_iff hon _).mp (hsmall (hsound.on_iff.mp hon))⟩
  | unopened _ _ hoff => exact absurd hoff hon

theorem run_inv {p : Probe} {calls : List Call}
    (hr : Run step (fun s call => Served call ∧ Fits s call) (constructed p) calls s) :
    Inv s ∧ Follows s := by
  refine hr.invariant (fun s => Inv s ∧ Follows s) ?_ ⟨constructed_inv p, fun herr => nomatch herr⟩
  rintro s call s' ⟨h, -⟩ ⟨hc, hf⟩ hs
  exact ⟨call_inv h hc hf hs, fun herr => (call_follows_iff h hc hs herr).mpr hf herr⟩

end Calls

/-- While every call fits, the driver follows; and after such calls it follows
the next one exactly when that one fits too. -/
theorem delay_follows (p : Probe) (calls : List Call) (s : Session)
    (hr : Run step (fun s call => Served call ∧ Fits s call) (constructed p) calls s) :
    Follows s ∧ ∀ call s', Served call → step s call = some s' → s'.err = some 0 →
      (Follows s' ↔ Fits s call) :=
  ⟨(run_inv hr).2, fun _ _ hc hs herr => call_follows_iff (run_inv hr).1 hc hs herr⟩

def willing : Answers := ⟨fun _ => some 3, fun _ => none⟩

def compassAt (ns : BitVec 64) : List Call :=
  [.setDelay ⟨willing, fun _ => none⟩ ID_M ns, .enable willing ID_M 1]

theorem delay_follows_second : ∃ s, Run step (fun s call => Served call ∧ Fits s call)
    (constructed idleProbe) (compassAt 1000000000) s ∧ lastDelay s.requests = some 1000 ∧
    Follows s := by
  have hset : Fits (constructed idleProbe)
      (.setDelay ⟨willing, fun _ => none⟩ ID_M 1000000000) := by
    refine ⟨fun hsame => hsame.elim, ?_⟩
    rintro - ⟨k, hk⟩
    have hoff : ∀ k, enabled (constructed idleProbe).sensor k = false := by decide +kernel
    exact absurd ((hoff k).symm.trans hk) (by decide)
  have hr : Run step (fun s call => Served call ∧ Fits s call) (constructed idleProbe)
      (compassAt 1000000000) _ :=
    .cons rfl ⟨⟨.inl rfl, fun _ => rfl, by decide⟩, hset⟩
      (.cons rfl ⟨⟨.inl rfl, fun _ => rfl⟩, fun _ hon => absurd (by decide +kernel) hon,
        fun _ _ => ⟨1000000000, ⟨AkmSensor.MagneticField, rfl, rfl⟩, by decide⟩⟩ (.nil _))
  exact ⟨_, hr, by decide +kernel, (delay_follows idleProbe _ _ hr).1⟩

/-- The compass is to report every 40 s. -/
theorem delay_wraps : ¬ ∀ calls s,
    Run step (fun _ call => Served call) (constructed idleProbe) calls s → Follows s := by
  intro h
  have hr : Run step (fun _ call => Served call) (constructed idleProbe)
      (compassAt 40000000000) _ :=
    .cons rfl ⟨.inl rfl, fun _ => rfl, by decide⟩
      (.cons rfl ⟨.inl rfl, fun _ => rfl⟩ (.nil _))
  obtain ⟨delay, least, hlast, ⟨⟨k, hk, rfl⟩, -⟩, hdelay⟩ :=
    h _ _ hr (by decide +kernel) (by decide +kernel)
  obtain rfl : delay = 40000 := Option.some.inj (hlast.symm.trans (by decide +kernel))
  revert k
  decide +kernel

end Wingray.CompassDelay
