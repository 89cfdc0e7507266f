import Mathlib.Tactic

/-!
# The hardware composer wrapper: the period of the panel

On opening, the wrapper asks the framebuffer driver for the timing of the
panel, for the refresh rate it reports and for the time between two emulated
synchronisations.
-/

set_option autoImplicit false

namespace Wingray.HwcRefresh

def ENOSYS : ℤ := 38

/-- `fb_var_screeninfo`, as far as the timing is concerned. -/
structure FbVarScreeninfo where
  xres : BitVec 32
  yres : BitVec 32
  pixclock : BitVec 32
  left_margin : BitVec 32
  right_margin : BitVec 32
  upper_margin : BitVec 32
  lower_margin : BitVec 32
  hsync_len : BitVec 32
  vsync_len : BitVec 32
  deriving DecidableEq

/-- What the system answers. `org` is the original composer's, when there is
one; `info` is what the structure holds after the ioctl, which fills it in
only if it succeeds. -/
structure Outcome where
  org : Option ℤ
  fb_fd : ℤ
  ioctl : ℤ
  info : FbVarScreeninfo

def Outcome.Filled (o : Outcome) : Prop := 0 ≤ o.fb_fd ∧ o.ioctl ≠ -1

instance (o : Outcome) : Decidable o.Filled := inferInstanceAs (Decidable (_ ∧ _))

/-- The fields of the zeroed device that opening fills in. -/
structure Tegra2HwcComposerDevice1 where
  fb_fd : ℤ := -1
  xres : BitVec 32 := 0
  yres : BitVec 32 := 0
  vsync_period : BitVec 32 := 0
  time_between_frames_ns : BitVec 64 := 0
  time_between_frames_us : BitVec 32 := 0
  vsync_running : Bool := false
  deriving DecidableEq

/-- `trapped` is a division by zero. -/
inductive Opened
  | refused (ret : ℤ)
  | trapped
  | device (dev : Tegra2HwcComposerDevice1)
  deriving DecidableEq

def divide (n d : BitVec 64) : Option (BitVec 64) :=
  if d = 0 then none else some (n/d)

/-- The sums are of 32 bits, and what they are multiplied to of 64. -/
def framePicoseconds (info : FbVarScreeninfo) : BitVec 64 :=
  (info.upper_margin+info.lower_margin+info.vsync_len+info.yres).setWidth 64
    * (info.left_margin+info.right_margin+info.hsync_len+info.xres).setWidth 64
    * info.pixclock.setWidth 64

def vsyncPeriod (info : FbVarScreeninfo) : Option (BitVec 32) := do
  let refreshRate ← divide 1000000000000 (framePicoseconds info)
  let refreshRate := if refreshRate = 0 then 60 else refreshRate
  let period ← divide 1000000000 refreshRate
  return period.setWidth 32

def screen (o : Outcome) (dev : Tegra2HwcComposerDevice1) : Option Tegra2HwcComposerDevice1 :=
  if o.Filled then do
    let period ← vsyncPeriod o.info
    return { dev with
      xres := o.info.xres
      yres := o.info.yres
      vsync_period := period }
  else some dev

def timeBetweenFrames (o : Outcome) : BitVec 64 :=
  let value := if 0 ≤ o.fb_fd then framePicoseconds o.info/1000 else 0
  if value = 0 then 16672550400/1000 else value

def tegra2Open (o : Outcome) : Opened :=
  match o.org with
  | none => .refused (-ENOSYS)
  | some ret =>
    if ret < 0 then .refused ret
    else
      match screen o { fb_fd := o.fb_fd } with
      | none => .trapped
      | some dev => .device { dev with
          time_between_frames_ns := timeBetweenFrames o
          time_between_frames_us := (timeBetweenFrames o/1000).setWidth 32
          vsync_running := true }

/-- A time that `nanosleep` takes for its nanoseconds. -/
def Sleepable (t : BitVec 64) : Prop := 0 < t.toNat ∧ t.toNat < 10^9

/-- Opening ends with a device, whose period can be slept, and looks at the
timing only where the driver has filled it in. -/
def OpensSoundly (o : Outcome) : Prop :=
  (∃ dev, tegra2Open o = .device dev ∧ Sleepable dev.time_between_frames_ns) ∧
    (¬ o.Filled → ∀ info, tegra2Open { o with info := info } = tegra2Open o)

/-- The driver's timing, counted in picoseconds a frame, is neither zero nor a
second or more. -/
def Timed (info : FbVarScreeninfo) : Prop :=
  let lines := info.upper_margin.toNat+info.lower_margin.toNat+info.vsync_len.toNat
    +info.yres.toNat
  let columns := info.left_margin.toNat+info.right_margin.toNat+info.hsync_len.toNat
    +info.xres.toNat
  let frame := lines%2^32*(columns%2^32)*info.pixclock.toNat%2^64
  0 < frame ∧ frame < 10^12

/-! ## What the device is given -/

section Timing

variable {info : FbVarScreeninfo} {o : Outcome}

theorem framePicoseconds_toNat (info : FbVarScreeninfo) : (framePicoseconds info).toNat =
    (info.upper_margin.toNat+info.lower_margin.toNat+info.vsync_len.toNat+info.yres.toNat)%2^32
      * ((info.left_margin.toNat+info.right_margin.toNat+info.hsync_len.toNat
        +info.xres.toNat)%2^32) * info.pixclock.toNat%2^64 := by
  have hwide (x : BitVec 32) : (x.setWidth 64).toNat = x.toNat := by
    rw [BitVec.toNat_setWidth]
    exact Nat.mod_eq_of_lt (x.isLt.trans (by decide))
  simp only [framePicoseconds, BitVec.toNat_mul, hwide, BitVec.toNat_add, Nat.mod_add_mod,
    Nat.mod_mul_mod]

theorem timed_iff : Timed info ↔
    framePicoseconds info ≠ 0 ∧ (framePicoseconds info).toNat < 10^12 := by
  have hpos : framePicoseconds info ≠ 0 ↔ 0 < (framePicoseconds info).toNat := by
    rw [Nat.pos_iff_ne_zero, not_iff_not, ← BitVec.toNat_inj]
    rfl
  rw [hpos, framePicoseconds_toNat]
  exact Iff.rfl

theorem divide_some {n d : BitVec 64} (h : d ≠ 0) : divide n d = some (n/d) := if_neg h

/-- Only the first division can trap: a refresh rate of zero is replaced. -/
theorem vsyncPeriod_some (h : framePicoseconds info ≠ 0) :
    ∃ period, vsyncPeriod info = some period := by
  have hrate (rate : BitVec 64) : (if rate = 0 then 60 else rate) ≠ 0 := by
    split_ifs with hzero
    · decide
    · exact hzero
  simp only [vsyncPeriod, divide_some h, Option.bind_eq_bind, Option.bind_some,
    divide_some (hrate _)]
  exact ⟨_, rfl⟩

theorem vsyncPeriod_none (h : framePicoseconds info = 0) : vsyncPeriod info = none := by
  rw [vsyncPeriod, h]
  rfl

theorem timeBetweenFrames_toNat : (timeBetweenFrames o).toNat =
    if 0 ≤ o.fb_fd ∧ 1000 ≤ (framePicoseconds o.info).toNat
    then (framePicoseconds o.info).toNat/1000 else 16672550 := by
  have hquot : (framePicoseconds o.info/1000).toNat = (framePicoseconds o.info).toNat/1000 :=
    BitVec.toNat_udiv
  by_cases hfd : 0 ≤ o.fb_fd
  · by_cases hn : 1000 ≤ (framePicoseconds o.info).toNat
    · have hvalue : framePicoseconds o.info/1000 ≠ 0 := by
        rw [Ne, ← BitVec.toNat_inj, hquot]
        exact (Nat.div_pos hn (by decide)).ne'
      simp only [timeBetweenFrames, if_pos hfd, if_neg hvalue, if_pos (And.intro hfd hn), hquot]
    · have hvalue : framePicoseconds o.info/1000 = 0 := by
        rw [← BitVec.toNat_inj, hquot]
        exact Nat.div_eq_of_lt (not_le.mp hn)
      simp only [timeBetweenFrames, if_pos hfd, if_pos hvalue, if_neg (fun h => hn (And.right h))]
      rfl
  · simp only [timeBetweenFrames, if_neg hfd, if_neg (fun h => hfd (And.left h)), if_true]
    rfl

theorem timeBetweenFrames_pos (o : Outcome) : 0 < (timeBetweenFrames o).toNat := by
  rw [timeBetweenFrames_toNat]
  split_ifs with h
  · exact Nat.div_pos h.2 (by decide)
  · decide

theorem timeBetweenFrames_lt : (timeBetweenFrames o).toNat < 10^9 ↔
    o.fb_fd < 0 ∨ (framePicoseconds o.info).toNat < 10^12 := by
  rw [timeBetweenFrames_toNat]
  split_ifs with h
  · rw [Nat.div_lt_iff_lt_mul (by decide)]
    have hopen : ¬ o.fb_fd < 0 := not_lt.mpr h.1
    simp [hopen]
  · refine iff_of_true (by decide) ?_
    by_contra hlarge
    push Not at hlarge
    exact h ⟨hlarge.1, le_trans (by decide) hlarge.2⟩

theorem timeBetweenFrames_sleepable (h : o.fb_fd < 0 ∨ Timed o.info) :
    Sleepable (timeBetweenFrames o) :=
  ⟨timeBetweenFrames_pos o, timeBetweenFrames_lt.mpr (h.imp_right (fun ht => (timed_iff.mp ht).2))⟩

theorem tegra2Open_accepted {ret : ℤ} (ho : o.org = some ret) (hret : 0 ≤ ret) : tegra2Open o =
    match screen o { fb_fd := o.fb_fd } with
    | none => .trapped
    | some dev => .device { dev with
        time_between_frames_ns := timeBetweenFrames o
        time_between_frames_us := (timeBetweenFrames o/1000).setWidth 32
        vsync_running := true } := by
  rw [tegra2Open, ho]
  exact if_neg (not_lt.mpr hret)

theorem screen_none {dev : Tegra2HwcComposerDevice1} :
    screen o dev = none ↔ o.Filled ∧ framePicoseconds o.info = 0 := by
  by_cases hfilled : o.Filled
  · by_cases hzero : framePicoseconds o.info = 0
    · simp [screen, hfilled, hzero, vsyncPeriod_none]
    · obtain ⟨period, hperiod⟩ := vsyncPeriod_some hzero
      simpa [screen, hfilled, hperiod] using hzero
  · simp [screen, hfilled]

theorem opens_device {ret : ℤ} (ho : o.org = some ret) (hret : 0 ≤ ret) :
    (∃ dev, tegra2Open o = .device dev ∧ Sleepable dev.time_between_frames_ns) ↔
      ¬ (o.Filled ∧ framePicoseconds o.info = 0) ∧ Sleepable (timeBetweenFrames o) := by
  rw [tegra2Open_accepted ho hret]
  cases hs : screen o { fb_fd := o.fb_fd } with
  | none => simp [screen_none.mp hs]
  | some dev =>
    have htrap : ¬ (o.Filled ∧ framePicoseconds o.info = 0) := by
      intro hnone
      have hscreen : screen o { fb_fd := o.fb_fd } = none := screen_none.mpr hnone
      exact absurd (hs.symm.trans hscreen) (Option.some_ne_none dev)
    constructor
    · rintro ⟨_, ⟨⟩, hsleep⟩
      exact ⟨htrap, hsleep⟩
    · rintro ⟨-, hsleep⟩
      exact ⟨_, rfl, hsleep⟩

theorem opens_unfilled {ret : ℤ} (ho : o.org = some ret) (hret : 0 ≤ ret) (hf : ¬ o.Filled) :
    tegra2Open o = .device
      { fb_fd := o.fb_fd
        time_between_frames_ns := timeBetweenFrames o
        time_between_frames_us := (timeBetweenFrames o/1000).setWidth 32
        vsync_running := true } := by
  rw [tegra2Open_accepted ho hret, screen, if_neg hf]

def still : FbVarScreeninfo := ⟨0, 0, 0, 0, 0, 0, 0, 0, 0⟩
def brief : FbVarScreeninfo := { still with xres := 1, yres := 1, pixclock := 1000 }

theorem opens_unfilled_differs {ret : ℤ} (ho : o.org = some ret) (hret : 0 ≤ ret)
    (hf : ¬ o.Filled) (hfd : 0 ≤ o.fb_fd) :
    tegra2Open { o with info := still } ≠ tegra2Open { o with info := brief } := by
  intro hsame
  rw [opens_unfilled (o := { o with info := still }) ho hret hf,
    opens_unfilled (o := { o with info := brief }) ho hret hf] at hsame
  injection hsame with hdev
  have htime := congrArg (fun dev => dev.time_between_frames_ns.toNat) hdev
  simp only [timeBetweenFrames_toNat, hfd, true_and] at htime
  exact absurd htime (by decide)

theorem opensSoundly_iff {ret : ℤ} (ho : o.org = some ret) (hret : 0 ≤ ret) :
    OpensSoundly o ↔ o.fb_fd < 0 ∨ (o.ioctl ≠ -1 ∧ Timed o.info) := by
  rw [OpensSoundly, opens_device ho hret, timed_iff]
  by_cases hfd : o.fb_fd < 0
  · have hf : ¬ o.Filled := fun h => not_lt.mpr h.1 hfd
    refine iff_of_true ⟨⟨fun h => hf h.1, timeBetweenFrames_sleepable (.inl hfd)⟩, ?_⟩ (.inl hfd)
    intro _ info
    have htime : timeBetweenFrames { o with info := info } = timeBetweenFrames o := by
      simp only [timeBetweenFrames, if_neg (not_le.mpr hfd)]
    rw [opens_unfilled (o := { o with info := info }) ho hret hf, opens_unfilled ho hret hf, htime]
  · have hopen : 0 ≤ o.fb_fd := not_lt.mp hfd
    by_cases hioctl : o.ioctl = -1
    · have hf : ¬ o.Filled := fun h => h.2 hioctl
      refine iff_of_false ?_ (by simp [hfd, hioctl])
      rintro ⟨-, hsame⟩
      exact opens_unfilled_differs ho hret hf hopen ((hsame hf still).trans (hsame hf brief).symm)
    · have hf : o.Filled := ⟨hopen, hioctl⟩
      have hlt : (timeBetweenFrames o).toNat < 10^9 ↔ (framePicoseconds o.info).toNat < 10^12 :=
        timeBetweenFrames_lt.trans (or_iff_right hfd)
      simp only [Sleepable, timeBetweenFrames_pos, hlt, hf, hfd, hioctl, true_and, not_true_eq_false,
        false_imp_iff, and_true, false_or, Ne, not_false_eq_true]

def panel : Outcome where
  org := some 0
  fb_fd := 5
  ioctl := 0
  info :=
    { xres := 1280
      yres := 800
      pixclock := 13000
      left_margin := 128
      right_margin := 64
      upper_margin := 22
      lower_margin := 3
      hsync_len := 64
      vsync_len := 7 }

theorem opensSoundly_panel : OpensSoundly panel :=
  (opensSoundly_iff rfl (le_refl 0)).mpr (.inr ⟨by decide, by decide, by decide⟩)

/-- A driver that succeeds and leaves the pixel clock at zero. -/
theorem opensSoundly_not_stopped : ¬ OpensSoundly { panel with info := still } := by
  rintro ⟨⟨dev, hdev, -⟩, -⟩
  cases hdev

end Timing

end Wingray.HwcRefresh
