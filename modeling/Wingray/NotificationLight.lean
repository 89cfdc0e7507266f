import Mathlib.Tactic

/-!
# The notification light

Two devices of the lights HAL share one LED: a request for attention wins over
a notification while it blinks. Each request is one step under the lock.
-/

set_option autoImplicit false

namespace Wingray.NotificationLight

/-- The flash modes of `hardware/lights.h`. -/
structure LightsHeader where
  LIGHT_FLASH_NONE : ℤ
  LIGHT_FLASH_HARDWARE : ℤ

def LIGHT_ATTENTION : ℤ := 1
def LIGHT_NOTIFY : ℤ := 2

/-- `light_state_t`, zero by default. -/
structure LightState where
  color : BitVec 32 := 0
  flashMode : ℤ := 0
  flashOnMS : ℤ := 0
  flashOffMS : ℤ := 0
  deriving DecidableEq

/-- What was last written to the two nodes of the LED. -/
structure Led where
  brightness : BitVec 32
  blink : ℤ
  deriving DecidableEq

structure Lights where
  g_notify : LightState := {}
  g_attention : LightState := {}
  led : Option Led := none

def rgbToBrightness (state : LightState) : BitVec 32 :=
  let color := state.color &&& 0x00ffffff
  let red := (color >>> 16) &&& 0x000000ff
  let green := (color >>> 8) &&& 0x000000ff
  let blue := color &&& 0x000000ff
  let brightness := red
  let brightness := if brightness.slt green then green else brightness
  if brightness.slt blue then blue else brightness

def setNotificationLight (s : Lights) (state : LightState) : Lights :=
  { s with led := some ⟨rgbToBrightness state, state.flashOnMS⟩ }

variable (h : LightsHeader)

def handleNotificationLightLocked (s : Lights) (type : ℤ) : Lights :=
  let attn_mode :=
    if s.g_attention.flashMode = h.LIGHT_FLASH_HARDWARE then s.g_attention.flashOnMS else 0
  if type = LIGHT_ATTENTION then
    setNotificationLight s (if attn_mode = 0 then s.g_notify else s.g_attention)
  else if type = LIGHT_NOTIFY then
    setNotificationLight s (if attn_mode ≠ 0 then s.g_attention else s.g_notify)
  else s

def setLightNotifications (s : Lights) (state : LightState) : Lights :=
  let g_notify := { s.g_notify with color := state.color }
  let g_notify :=
    if state.flashMode ≠ h.LIGHT_FLASH_NONE then { g_notify with
      flashMode := h.LIGHT_FLASH_HARDWARE
      flashOnMS := state.flashOnMS
      flashOffMS := state.flashOffMS }
    else { g_notify with flashOnMS := 0, flashOffMS := 0 }
  handleNotificationLightLocked h { s with g_notify := g_notify } LIGHT_NOTIFY

def setLightAttention (s : Lights) (state : LightState) : Lights :=
  handleNotificationLightLocked h { s with g_attention := { s.g_attention with
    flashMode := state.flashMode
    flashOnMS := state.flashOnMS
    color := state.color
    flashOffMS := 0 } } LIGHT_ATTENTION

inductive Call
  | attention (state : LightState)
  | notifications (state : LightState)

def Call.attentionOf : Call → Option LightState
  | .attention state => some state
  | .notifications _ => none

def Call.notificationOf : Call → Option LightState
  | .attention _ => none
  | .notifications state => some state

def setLight (s : Lights) : Call → Lights
  | .attention state => setLightAttention h s state
  | .notifications state => setLightNotifications h s state

def run (s : Lights) (calls : List Call) : Lights := calls.foldl (setLight h) s

/-! ## The brightness of a color -/

theorem component_toNat (color : BitVec 32) (k : ℕ) (hk : k ≤ 16) :
    ((color &&& 0x00ffffff) >>> k &&& 0x000000ff).toNat = color.toNat/2^k%2^8 := by
  have hlow : (color &&& 0x00ffffff).toNat = color.toNat%2^24 := by
    rw [BitVec.toNat_and]
    exact Nat.and_two_pow_sub_one_eq_mod _ 24
  have hbyte (x : BitVec 32) : (x &&& 0x000000ff).toNat = x.toNat%2^8 := by
    rw [BitVec.toNat_and]
    exact Nat.and_two_pow_sub_one_eq_mod _ 8
  rw [hbyte, BitVec.toNat_ushiftRight, hlow, Nat.shiftRight_eq_div_pow]
  rw [show 24 = k+(24-k) by omega, pow_add, Nat.mod_mul_right_div_self]
  exact Nat.mod_mod_of_dvd _ (pow_dvd_pow 2 (by omega))

theorem brighter_toNat {x y : BitVec 32} (hx : x.toNat < 2^8) (hy : y.toNat < 2^8) :
    (if x.slt y then y else x).toNat = max x.toNat y.toNat := by
  have hless : x.slt y = true ↔ x.toNat < y.toNat := by
    rw [BitVec.slt_iff_toInt_lt, BitVec.toInt_eq_toNat_of_lt (by omega),
      BitVec.toInt_eq_toNat_of_lt (by omega), Nat.cast_lt]
  by_cases hlt : x.toNat < y.toNat
  · rw [if_pos (hless.mpr hlt), max_eq_right hlt.le]
  · rw [if_neg (mt hless.mp hlt), max_eq_left (not_lt.mp hlt)]

theorem rgbToBrightness_toNat (state : LightState) : (rgbToBrightness state).toNat =
    max (max (state.color.toNat/2^16%2^8) (state.color.toNat/2^8%2^8)) (state.color.toNat%2^8) := by
  have hcomponent := component_toNat state.color
  have hblue : ((state.color &&& 0x00ffffff) &&& 0x000000ff).toNat = state.color.toNat%2^8 := by
    simpa using hcomponent 0 (by omega)
  have hred := hcomponent 16 (by omega)
  have hgreen := hcomponent 8 (by omega)
  have hbound (n : ℕ) : n%2^8 < 2^8 := Nat.mod_lt n (by decide)
  have hwinner := brighter_toNat (hred ▸ hbound _) (hgreen ▸ hbound _)
  rw [rgbToBrightness, brighter_toNat _ (hblue ▸ hbound _), hwinner, hred, hgreen, hblue]
  rw [hwinner, hred, hgreen]
  exact max_lt (hbound _) (hbound _)

/-! ## What the LED shows -/

def lastOf (kind : Call → Option LightState) (calls : List Call) (first : LightState) :
    LightState :=
  (calls.filterMap kind).getLast?.getD first

def blink (n : LightState) : ℤ := if n.flashMode = h.LIGHT_FLASH_NONE then 0 else n.flashOnMS

def shown (a n : LightState) : Led :=
  if a.flashMode = h.LIGHT_FLASH_HARDWARE ∧ a.flashOnMS ≠ 0
  then ⟨rgbToBrightness a, a.flashOnMS⟩ else ⟨rgbToBrightness n, blink h n⟩

/-- The stored states tell as much as the requests `a` and `n`. -/
structure Tracks (s : Lights) (a n : LightState) : Prop where
  attnMode : s.g_attention.flashMode = a.flashMode
  attnOnMS : s.g_attention.flashOnMS = a.flashOnMS
  attnColor : s.g_attention.color = a.color
  notifyOnMS : s.g_notify.flashOnMS = blink h n
  notifyColor : s.g_notify.color = n.color

section Calls

variable {h} {s : Lights} {a n : LightState}

theorem start_tracks : Tracks h {} {} {} where
  attnMode := rfl
  attnOnMS := rfl
  attnColor := rfl
  notifyOnMS := by simp [blink]
  notifyColor := rfl

theorem rgbToBrightness_congr {x y : LightState} (hc : x.color = y.color) :
    rgbToBrightness x = rgbToBrightness y := by
  simp only [rgbToBrightness, hc]

theorem handle_eq (s : Lights) {type : ℤ} (htype : type = LIGHT_ATTENTION ∨ type = LIGHT_NOTIFY) :
    handleNotificationLightLocked h s type = setNotificationLight s
      (if s.g_attention.flashMode = h.LIGHT_FLASH_HARDWARE ∧ s.g_attention.flashOnMS ≠ 0
        then s.g_attention else s.g_notify) := by
  have hmode : (if s.g_attention.flashMode = h.LIGHT_FLASH_HARDWARE
      then s.g_attention.flashOnMS else 0) = 0 ↔
      ¬ (s.g_attention.flashMode = h.LIGHT_FLASH_HARDWARE ∧ s.g_attention.flashOnMS ≠ 0) := by
    split_ifs with hw
    · simp [hw]
    · simp [hw]
  have hother : ¬ LIGHT_NOTIFY = LIGHT_ATTENTION := by decide
  rcases htype with rfl | rfl
  · simp only [handleNotificationLightLocked, hmode, if_true, ite_not]
  · simp only [handleNotificationLightLocked, ne_eq, hmode, not_not, if_neg hother, if_true]

theorem handle_shows (ht : Tracks h s a n) {type : ℤ}
    (htype : type = LIGHT_ATTENTION ∨ type = LIGHT_NOTIFY) :
    (handleNotificationLightLocked h s type).led = some (shown h a n) := by
  rw [handle_eq s htype, ht.attnMode, ht.attnOnMS, shown]
  split_ifs
  · simp only [setNotificationLight, rgbToBrightness_congr ht.attnColor, ht.attnOnMS]
  · simp only [setNotificationLight, rgbToBrightness_congr ht.notifyColor, ht.notifyOnMS]

theorem handle_tracks (ht : Tracks h s a n) {type : ℤ}
    (htype : type = LIGHT_ATTENTION ∨ type = LIGHT_NOTIFY) :
    Tracks h (handleNotificationLightLocked h s type) a n := by
  rw [handle_eq s htype]
  exact ⟨ht.attnMode, ht.attnOnMS, ht.attnColor, ht.notifyOnMS, ht.notifyColor⟩

theorem notifications_tracks (ht : Tracks h s a n) (state : LightState) :
    Tracks h (setLightNotifications h s state) a state ∧
      (setLightNotifications h s state).led = some (shown h a state) := by
  rw [setLightNotifications]
  have hstored : Tracks h { s with g_notify :=
      if state.flashMode ≠ h.LIGHT_FLASH_NONE then { s.g_notify with
        color := state.color
        flashMode := h.LIGHT_FLASH_HARDWARE
        flashOnMS := state.flashOnMS
        flashOffMS := state.flashOffMS }
      else { s.g_notify with color := state.color, flashOnMS := 0, flashOffMS := 0 } } a state := by
    refine ⟨ht.attnMode, ht.attnOnMS, ht.attnColor, ?_, ?_⟩
    · rw [blink]
      split_ifs <;> simp_all
    · split_ifs <;> rfl
  exact ⟨handle_tracks hstored (.inr rfl), handle_shows hstored (.inr rfl)⟩

theorem attention_tracks (ht : Tracks h s a n) (state : LightState) :
    Tracks h (setLightAttention h s state) state n ∧
      (setLightAttention h s state).led = some (shown h state n) := by
  rw [setLightAttention]
  have hstored : Tracks h { s with g_attention := { s.g_attention with
      flashMode := state.flashMode
      flashOnMS := state.flashOnMS
      color := state.color
      flashOffMS := 0 } } state n := ⟨rfl, rfl, rfl, ht.notifyOnMS, ht.notifyColor⟩
  exact ⟨handle_tracks hstored (.inl rfl), handle_shows hstored (.inl rfl)⟩

theorem lastOf_cons (kind : Call → Option LightState) (c : Call) (calls : List Call)
    (first : LightState) :
    lastOf kind (c::calls) first = lastOf kind calls ((kind c).getD first) := by
  rw [lastOf, lastOf, List.filterMap_cons]
  cases kind c with
  | none => rfl
  | some state => rw [List.getLast?_cons, Option.getD_some, Option.getD_some]

theorem setLight_tracks (ht : Tracks h s a n) (c : Call) :
    Tracks h (setLight h s c) (c.attentionOf.getD a) (c.notificationOf.getD n) ∧
      (setLight h s c).led = some (shown h (c.attentionOf.getD a) (c.notificationOf.getD n)) := by
  cases c with
  | attention state => exact attention_tracks ht state
  | notifications state => exact notifications_tracks ht state

theorem run_shows (ht : Tracks h s a n) (calls : List Call) (hne : calls ≠ []) :
    (run h s calls).led = some (shown h (lastOf Call.attentionOf calls a)
      (lastOf Call.notificationOf calls n)) := by
  induction calls generalizing s a n with
  | nil => exact absurd rfl hne
  | cons c calls ih =>
    obtain ⟨htracks, hled⟩ := setLight_tracks ht c
    rw [lastOf_cons, lastOf_cons, run, List.foldl_cons]
    cases calls with
    | nil => exact hled
    | cons d calls => exact ih htracks (List.cons_ne_nil d calls)

/-- The calls are these attention requests and these notification requests,
each kind in its own order. -/
def Interleaves (attentions notifications : List LightState) (calls : List Call) : Prop :=
  calls.filterMap Call.attentionOf = attentions ∧
    calls.filterMap Call.notificationOf = notifications

theorem Interleaves.nil_iff {attentions notifications : List LightState} {calls : List Call}
    (hi : Interleaves attentions notifications calls) :
    calls = [] ↔ attentions = [] ∧ notifications = [] := by
  obtain ⟨rfl, rfl⟩ := hi
  cases calls with
  | nil => simp
  | cons c calls => cases c <;> simp [Call.attentionOf, Call.notificationOf]

theorem Interleaves.led_eq {attentions notifications : List LightState} {calls : List Call}
    (hi : Interleaves attentions notifications calls) :
    (run h {} calls).led = if attentions = [] ∧ notifications = [] then none
      else some (shown h (attentions.getLast?.getD {}) (notifications.getLast?.getD {})) := by
  by_cases hnil : calls = []
  · rw [if_pos (hi.nil_iff.mp hnil), hnil]
    rfl
  · rw [if_neg (mt hi.nil_iff.mpr hnil), run_shows start_tracks calls hnil, lastOf, lastOf, hi.1,
      hi.2]

end Calls

/-- The LED is a function of the last request of each kind, whatever the order
of the calls. -/
theorem led_shows :
    (∀ calls ≠ [], (run h {} calls).led = some (shown h (lastOf Call.attentionOf calls {})
      (lastOf Call.notificationOf calls {}))) ∧
    ∀ attentions notifications calls others, Interleaves attentions notifications calls →
      Interleaves attentions notifications others →
      (run h {} calls).led = (run h {} others).led := by
  constructor
  · exact run_shows start_tracks
  · intro attentions notifications calls others hcalls hothers
    rw [hcalls.led_eq, hothers.led_eq]

def android : LightsHeader := ⟨0, 2⟩

def blinking : LightState := { color := 0x00ff0000, flashMode := 2, flashOnMS := 500 }
def steady : LightState := { color := 0x0000ff00, flashOnMS := 300 }

theorem led_shows_blinking :
    (run android {} [.notifications steady, .attention blinking]).led = some ⟨255, 500⟩ ∧
    (run android {} [.notifications steady, .attention blinking]).led =
      (run android {} [.attention blinking, .notifications steady]).led :=
  ⟨(led_shows android).1 _ (by simp), (led_shows android).2 [blinking] [steady] _ _ ⟨rfl, rfl⟩
    ⟨rfl, rfl⟩⟩

end Wingray.NotificationLight
