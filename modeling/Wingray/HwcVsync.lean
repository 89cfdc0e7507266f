import Wingray.GuardedRun

/-!
# The hardware composer wrapper: emulated vertical sync

One thread calls back the registered procedures on every frame. Any number of
callers register procedures, switch the events and blank the display. A
section under the mutex is one step, and so is each access to one of the three
shared fields.
-/

set_option autoImplicit false

namespace Wingray.HwcVsync
open Wingray.GuardedRun

def EINVAL : ℤ := 22
def HWC_EVENT_VSYNC : ℤ := 0

/-- `hwc_procs_t`; the callback can be null. -/
structure HwcProcs where
  vsync : Option ℕ

inductive Call
  | registerProcs (procs : Option HwcProcs)
  | eventControl (dpy event enabled : ℤ)
  | blank (disp blanked : ℤ)

inductive Switch
  | display | vsync
  deriving DecidableEq

def Call.off : Call → Option Switch
  | .registerProcs _ => none
  | .eventControl _ event enabled =>
    if event = HWC_EVENT_VSYNC ∧ enabled = 0 then some .vsync else none
  | .blank _ blanked => if blanked ≠ 0 then some .display else none

def Call.on : Call → Option Switch
  | .registerProcs _ => none
  | .eventControl _ event enabled =>
    if event = HWC_EVENT_VSYNC ∧ enabled ≠ 0 then some .vsync else none
  | .blank _ blanked => if blanked = 0 then some .display else none

/-- A caller outside, on entering a call, after the original composer
has refused an event, and before returning. `inForce` is history: no call has switched
back on what this one has switched off. -/
inductive Caller
  | outside
  | entered (c : Call)
  | refused (dpy event enabled : ℤ)
  | done (c : Call) (ret : ℤ) (inForce : Bool)

/-- The thread at the top of its loop, in `pthread_cond_wait`, before its
reads of `enabled_vsync`, `fbblanked` and `procs`, and before the call, for
which it reads `procs` once more. -/
inductive Pc
  | top
  | waiting
  | readEnabled
  | readBlanked
  | readProcs
  | callVsync (procs : Option HwcProcs)
  | ended

/-- `off` is history: a call that switched this off has returned and none has
switched it on since. -/
structure Tegra2HwcComposerDevice1 where
  procs : Option HwcProcs
  vsync_running : Bool
  enabled_vsync : Bool
  fbblanked : Bool
  pc : Pc
  callers : ℕ → Caller
  off : Switch → Bool

def Caller.supersede (w : Option Switch) : Caller → Caller
  | .done c ret inForce => .done c ret (inForce && !(c.off.isSome && c.off = w))
  | caller => caller

namespace Tegra2HwcComposerDevice1

def opened : Tegra2HwcComposerDevice1 where
  procs := none
  vsync_running := true
  enabled_vsync := false
  fbblanked := false
  pc := .top
  callers := fun _ => .outside
  off := fun _ => false

def effect (s : Tegra2HwcComposerDevice1) (k : ℕ) (c : Call) (ret : ℤ) :
    Tegra2HwcComposerDevice1 := { s with
  callers := Function.update (fun j => (s.callers j).supersede c.on) k (.done c ret true)
  off := fun w => if c.on = some w then false else s.off w }

end Tegra2HwcComposerDevice1
open Tegra2HwcComposerDevice1

/-- `advance` and `wake` are steps of the thread, the others of caller `k`. -/
inductive Label
  | advance
  | wake
  | enter (k : ℕ) (c : Call)
  | answer (k : ℕ) (ret : ℤ)
  | act (k : ℕ)
  | leave (k : ℕ)

def advance (s : Tegra2HwcComposerDevice1) : Option Tegra2HwcComposerDevice1 :=
  match s.pc with
  | .top => some { s with
      pc := if s.fbblanked && s.vsync_running then .waiting
        else if !s.vsync_running then .ended
        else .readEnabled }
  | .waiting => none
  | .readEnabled => some { s with pc := if s.enabled_vsync then .readBlanked else .top }
  | .readBlanked => some { s with pc := if !s.fbblanked then .readProcs else .top }
  | .readProcs => some { s with pc := .callVsync s.procs }
  | .callVsync _ => some { s with pc := .top }
  | .ended => none

def act (s : Tegra2HwcComposerDevice1) (k : ℕ) : Option Tegra2HwcComposerDevice1 :=
  match s.callers k with
  | .entered (.registerProcs procs) =>
    some (effect { s with procs := procs } k (.registerProcs procs) 0)
  | .entered (.blank disp blanked) =>
    some (effect { s with fbblanked := blanked ≠ 0 } k (.blank disp blanked) 0)
  | .refused dpy event enabled =>
    some (effect { s with enabled_vsync := enabled ≠ 0 } k (.eventControl dpy event enabled) 0)
  | _ => none

def step (s : Tegra2HwcComposerDevice1) : Label → Option Tegra2HwcComposerDevice1
  | .advance => advance s
  | .wake =>
    match s.pc with
    | .waiting => some { s with pc := if !s.vsync_running then .ended else .readEnabled }
    | _ => none
  | .enter k c =>
    match s.callers k with
    | .outside => some { s with callers := Function.update s.callers k (.entered c) }
    | _ => none
  | .answer k ret =>
    match s.callers k with
    | .entered (.eventControl dpy event enabled) =>
      if ret ≠ 0 ∧ event = HWC_EVENT_VSYNC then
        some { s with
          callers := Function.update s.callers k (.refused dpy event enabled) }
      else some (s.effect k (.eventControl dpy event enabled) ret)
    | _ => none
  | .act k => act s k
  | .leave k =>
    match s.callers k with
    | .done c ret inForce => some { s with
        callers := Function.update s.callers k .outside
        off := fun w => (c.off = some w && ret = 0 && inForce) || s.off w }
    | _ => none

/-! ## What a run has to keep -/

def Usable (procs : Option HwcProcs) : Prop := ∃ p, procs = some p ∧ p.vsync ≠ none

instance (procs : Option HwcProcs) : Decidable (Usable procs) :=
  match procs with
  | none => .isFalse (fun h => nomatch h)
  | some p => decidable_of_iff (p.vsync ≠ none) (by simp [Usable])

/-- Whenever the thread is about to call, there is a callback to call and
nothing that has been switched off. -/
def CallsProperly (s : Tegra2HwcComposerDevice1) : Prop :=
  ∀ procs, s.pc = .callVsync procs →
    Usable procs ∧ s.procs ≠ none ∧ s.off .display = false ∧ s.off .vsync = false

/-- The thread has passed the test of both flags and not called yet. -/
def Pc.committed : Pc → Bool
  | .readProcs | .callVsync _ => true
  | _ => false

def Pc.passed : Switch → Pc → Bool
  | .display, pc => pc.committed
  | .vsync, pc => pc.committed || pc matches .readBlanked

theorem committed_passed {pc : Pc} (h : pc.committed = true) (w : Switch) :
    pc.passed w = true := by
  cases w with
  | display => exact h
  | vsync => exact Bool.or_eq_true_iff.mpr (.inl h)

def isOff (s : Tegra2HwcComposerDevice1) : Switch → Bool
  | .display => s.fbblanked
  | .vsync => !s.enabled_vsync

/-- The thread passes its test only with a callback registered, and none is
taken away before the call; a call that switches something off does not return
between the thread's test and its call; and the original composer does not
accept to switch off an event that the wrapper has switched on itself. -/
def Guarded (s : Tegra2HwcComposerDevice1) : Label → Prop
  | .advance =>
    match s.pc with
    | .readBlanked => s.fbblanked = false → Usable s.procs
    | _ => True
  | .act k =>
    match s.callers k with
    | .entered (.registerProcs procs) => s.pc.committed = true → Usable procs
    | _ => True
  | .leave k =>
    match s.callers k with
    | .done c _ true => ∀ w, c.off = some w → s.pc.passed w = false
    | _ => True
  | .answer k ret =>
    match s.callers k with
    | .entered c => c.off = some .vsync → ret = 0 → s.enabled_vsync = false
    | _ => True
  | _ => True

/-- What is switched off stays off where the thread looks, and the thread has
passed its test before; what it is going to call can be called. -/
structure Inv (s : Tegra2HwcComposerDevice1) : Prop where
  off : ∀ w, s.off w = true → isOff s w = true ∧ s.pc.passed w = false
  inForce : ∀ k c ret w, s.callers k = .done c ret true → c.off = some w → isOff s w = true
  refused : ∀ k dpy event enabled, s.callers k = .refused dpy event enabled →
    event = HWC_EVENT_VSYNC
  usable : s.pc.committed = true → Usable s.procs
  loaded : ∀ procs, s.pc = .callVsync procs → Usable procs

theorem opened_inv : Inv opened where
  off := fun _ h => nomatch h
  inForce := fun _ _ _ _ h => nomatch h
  refused := fun _ _ _ _ h => nomatch h
  usable := fun h => nomatch h
  loaded := fun _ h => nomatch h

/-- A call in force before a write that it survives is not about its switch. -/
theorem supersede_done {caller : Caller} {on : Option Switch} {c : Call} {ret : ℤ}
    (h : caller.supersede on = .done c ret true) :
    caller = .done c ret true ∧ ∀ w, c.off = some w → on ≠ some w := by
  cases caller with
  | done d r inForce =>
    simp only [Caller.supersede, Caller.done.injEq, Bool.and_eq_true] at h
    obtain ⟨rfl, rfl, rfl, hkept⟩ := h
    refine ⟨rfl, ?_⟩
    rintro w hw rfl
    simp [hw] at hkept
  | outside | entered | refused => cases h

theorem supersede_refused {caller : Caller} {on : Option Switch} {dpy event enabled : ℤ}
    (h : caller.supersede on = .refused dpy event enabled) :
    caller = .refused dpy event enabled := by
  cases caller with
  | refused => exact h
  | outside | entered | done => cases h

section Steps

variable {s s' : Tegra2HwcComposerDevice1} {k : ℕ} {c : Call} {ret : ℤ}

theorem effect_inv (h : Inv s)
    (hsame : s'.pc = s.pc ∧ s'.callers = s.callers ∧ s'.off = s.off)
    (hkeep : ∀ w, c.on ≠ some w → isOff s w = true → isOff s' w = true)
    (hself : ∀ w, c.off = some w → isOff s' w = true)
    (husable : s.pc.committed = true → Usable s'.procs) (k : ℕ) (ret : ℤ) :
    Inv (s'.effect k c ret) := by
  obtain ⟨hpc, hcallers, hoff⟩ := hsame
  constructor
  case off =>
    intro w hw
    simp only [effect, hoff] at hw
    split_ifs at hw with hon
    obtain ⟨hflag, hpassed⟩ := h.off w hw
    exact ⟨hkeep w hon hflag, hpc ▸ hpassed⟩
  case inForce =>
    intro j d r w hj hd
    by_cases hjk : j = k
    · subst hjk
      simp only [effect, Function.update_self] at hj
      cases hj
      exact hself w hd
    · simp only [effect, Function.update_of_ne hjk, hcallers] at hj
      obtain ⟨hcaller, hother⟩ := supersede_done hj
      exact hkeep w (hother w hd) (h.inForce j d r w hcaller hd)
  case refused =>
    intro j dpy event enabled hj
    by_cases hjk : j = k
    · subst hjk
      simp only [effect, Function.update_self] at hj
      cases hj
    · simp only [effect, Function.update_of_ne hjk, hcallers] at hj
      exact h.refused j dpy event enabled (supersede_refused hj)
  case usable => exact fun hcommitted => husable (hpc ▸ hcommitted)
  case loaded => exact fun procs hprocs => h.loaded procs (hpc ▸ hprocs)

theorem Inv.goto (h : Inv s) {pc : Pc} (hoff : ∀ w, s.off w = true → pc.passed w = false)
    (husable : pc.committed = true → Usable s.procs)
    (hloaded : ∀ procs, pc = .callVsync procs → Usable procs) : Inv { s with pc := pc } where
  off := fun w hw => ⟨(h.off w hw).1, hoff w hw⟩
  inForce := h.inForce
  refused := h.refused
  usable := husable
  loaded := hloaded

theorem Inv.goback (h : Inv s) {pc : Pc} (hpassed : ∀ w, pc.passed w = false) :
    Inv { s with pc := pc } := by
  have hcommitted : pc.committed = false := hpassed .display
  apply h.goto (fun w _ => hpassed w)
  · intro hc
    rw [hcommitted] at hc
    cases hc
  · rintro procs rfl
    cases hcommitted

theorem Inv.caller (h : Inv s) (k : ℕ) {caller : Caller}
    (hforce : ∀ c ret w, caller = .done c ret true → c.off = some w → isOff s w = true)
    (hrefused : ∀ dpy event enabled, caller = .refused dpy event enabled →
      event = HWC_EVENT_VSYNC) :
    Inv { s with callers := Function.update s.callers k caller } where
  off := h.off
  inForce := by
    intro j c ret w hj
    by_cases hjk : j = k
    · subst hjk
      exact hforce c ret w (by simpa using hj)
    · exact h.inForce j c ret w (by simpa [hjk] using hj)
  refused := by
    intro j dpy event enabled hj
    by_cases hjk : j = k
    · subst hjk
      exact hrefused dpy event enabled (by simpa using hj)
    · exact h.refused j dpy event enabled (by simpa [hjk] using hj)
  usable := h.usable
  loaded := h.loaded

theorem advance_inv (h : Inv s) (hg : Guarded s .advance) (hs : advance s = some s') : Inv s' := by
  have hoff := h.off
  simp only [advance] at hs
  simp only [Guarded] at hg
  split at hs
  · obtain rfl := Option.some.inj hs
    apply h.goback
    intro w
    split_ifs <;> cases w <;> rfl
  · cases hs
  · case _ hpc =>
    obtain rfl := Option.some.inj hs
    split_ifs with henabled
    · refine h.goto ?_ (fun hc => nomatch hc) (fun _ hc => nomatch hc)
      intro w hw
      cases w with
      | display => rfl
      | vsync =>
        have hflag := (hoff .vsync hw).1
        simp [isOff, henabled] at hflag
    · exact h.goback (fun w => by cases w <;> rfl)
  · case _ hpc =>
    obtain rfl := Option.some.inj hs
    rw [hpc] at hg hoff
    split_ifs with hblanked
    · rw [Bool.not_eq_true'] at hblanked
      refine h.goto ?_ (fun _ => hg hblanked) (fun _ hc => nomatch hc)
      intro w hw
      obtain ⟨hflag, hpassed⟩ := hoff w hw
      cases w with
      | display => simp [isOff, hblanked] at hflag
      | vsync => cases hpassed
    · exact h.goback (fun w => by cases w <;> rfl)
  · case _ hpc =>
    obtain rfl := Option.some.inj hs
    have husable := h.usable (by rw [hpc]; rfl)
    refine h.goto ?_ (fun _ => husable) ?_
    · intro w hw
      have hpassed := (hoff w hw).2
      rw [hpc] at hpassed
      cases w <;> exact hpassed
    · rintro procs hprocs
      cases hprocs
      exact husable
  · obtain rfl := Option.some.inj hs
    exact h.goback (fun w => by cases w <;> rfl)
  · cases hs

theorem act_inv (h : Inv s) (hg : Guarded s (.act k)) (hs : act s k = some s') : Inv s' := by
  simp only [act] at hs
  simp only [Guarded] at hg
  split at hs
  · case _ procs hcaller =>
    obtain rfl := Option.some.inj hs
    rw [hcaller] at hg
    refine effect_inv h ?_ ?_ ?_ hg k 0
    · exact ⟨rfl, rfl, rfl⟩
    · exact fun _ _ hflag => hflag
    · intro w hw
      cases hw
  · case _ disp blanked hcaller =>
    obtain rfl := Option.some.inj hs
    refine effect_inv h ?_ ?_ ?_ ?_ k 0
    · exact ⟨rfl, rfl, rfl⟩
    · intro w hon hflag
      cases w with
      | vsync => exact hflag
      | display => simpa [isOff, Call.on] using hon
    · intro w hw
      simp only [Call.off] at hw
      split_ifs at hw with hne
      obtain rfl := Option.some.inj hw
      exact decide_eq_true hne
    · exact h.usable
  · case _ dpy event enabled hcaller =>
    obtain rfl := Option.some.inj hs
    have hevent := h.refused k dpy event enabled hcaller
    refine effect_inv h ?_ ?_ ?_ ?_ k 0
    · exact ⟨rfl, rfl, rfl⟩
    · intro w hon hflag
      cases w with
      | display => exact hflag
      | vsync => simpa [isOff, Call.on, hevent] using hon
    · intro w hw
      simp only [Call.off] at hw
      split_ifs at hw with hne
      obtain rfl := Option.some.inj hw
      simp [isOff, hne.2]
    · exact h.usable
  · cases hs

theorem answer_inv (h : Inv s) (hg : Guarded s (.answer k ret))
    (hs : step s (.answer k ret) = some s') : Inv s' := by
  simp only [step] at hs
  simp only [Guarded] at hg
  split at hs
  · case _ dpy event enabled hcaller =>
    rw [hcaller] at hg
    split_ifs at hs with hanswer
    · obtain rfl := Option.some.inj hs
      apply h.caller k
      · rintro c r w ⟨⟩
      · rintro _ _ _ ⟨⟩
        exact hanswer.2
    · obtain rfl := Option.some.inj hs
      refine effect_inv h ⟨rfl, rfl, rfl⟩ (fun _ _ hflag => hflag) ?_ h.usable k ret
      intro w hw
      have hoff := hw
      simp only [Call.off] at hoff
      split_ifs at hoff with hevent
      obtain rfl := Option.some.inj hoff
      have hret : ret = 0 := by
        by_contra hne
        exact hanswer ⟨hne, hevent.1⟩
      simp [isOff, hg hw hret]
  · cases hs

theorem leave_inv (h : Inv s) (hg : Guarded s (.leave k)) (hs : step s (.leave k) = some s') :
    Inv s' := by
  simp only [step] at hs
  simp only [Guarded] at hg
  split at hs
  · case _ c r inForce hcaller =>
    obtain rfl := Option.some.inj hs
    have hout : Inv { s with callers := Function.update s.callers k .outside } := by
      apply h.caller k
      · rintro c r w ⟨⟩
      · rintro _ _ _ ⟨⟩
    refine ⟨?_, hout.inForce, hout.refused, hout.usable, hout.loaded⟩
    intro w hw
    rw [Bool.or_eq_true] at hw
    rcases hw with hreturned | hw
    · simp only [Bool.and_eq_true, decide_eq_true_eq] at hreturned
      obtain ⟨⟨hoff, _⟩, rfl⟩ := hreturned
      rw [hcaller] at hg
      exact ⟨h.inForce k c r w hcaller hoff, hg w hoff⟩
    · exact h.off w hw
  · cases hs

theorem step_inv (h : Inv s) {l : Label} (hg : Guarded s l) (hs : step s l = some s') : Inv s' := by
  cases l with
  | advance => exact advance_inv h hg hs
  | act k => exact act_inv h hg hs
  | answer k ret => exact answer_inv h hg hs
  | leave k => exact leave_inv h hg hs
  | wake =>
    simp only [step] at hs
    split at hs
    · obtain rfl := Option.some.inj hs
      apply h.goback
      intro w
      split_ifs <;> cases w <;> rfl
    · cases hs
  | enter k c =>
    simp only [step] at hs
    split at hs
    · obtain rfl := Option.some.inj hs
      apply h.caller k
      · rintro c r w ⟨⟩
      · rintro _ _ _ ⟨⟩
    · cases hs

end Steps

theorem vsync_calls_properly (labels : List Label) (s : Tegra2HwcComposerDevice1)
    (hr : Run step Guarded opened labels s) : CallsProperly s := by
  have h : Inv s := hr.invariant Inv (fun u l u' hu hg hs => step_inv hu hg hs) opened_inv
  intro procs hpc
  have hcommitted : s.pc.committed = true := by rw [hpc]; rfl
  have hon : ∀ w, s.off w = false := by
    intro w
    by_contra hw
    have hpassed := (h.off w (Bool.eq_true_of_not_eq_false hw)).2
    rw [committed_passed hcommitted] at hpassed
    cases hpassed
  obtain ⟨p, hp, _⟩ := h.usable hcommitted
  exact ⟨h.loaded procs hpc, by simp [hp], hon .display, hon .vsync⟩

def registeredFirst : List Label :=
  [.enter 0 (.registerProcs (some ⟨some 7⟩)), .act 0, .leave 0,
    .enter 0 (.eventControl 0 HWC_EVENT_VSYNC 1), .answer 0 (-EINVAL), .act 0, .leave 0,
    .advance, .advance, .advance, .advance]

theorem vsync_calls_registered : ∃ s, Run step Guarded opened registeredFirst s ∧
    s.pc = .callVsync (some ⟨some 7⟩) ∧ CallsProperly s := by
  have hr : Run step Guarded opened registeredFirst _ :=
    .cons rfl trivial (.cons rfl (fun h => nomatch h) (.cons rfl (fun _ h => nomatch h)
      (.cons rfl trivial (.cons rfl (fun h => nomatch h) (.cons rfl trivial
        (.cons rfl (fun _ h => nomatch h) (.cons rfl trivial (.cons rfl trivial
          (.cons rfl (fun _ => ⟨⟨some 7⟩, rfl, Option.some_ne_none _⟩)
            (.cons rfl trivial (.nil _)))))))))))
  exact ⟨_, hr, rfl, vsync_calls_properly registeredFirst _ hr⟩

def unregistered : List Label :=
  [.enter 0 (.eventControl 0 HWC_EVENT_VSYNC 1), .answer 0 (-EINVAL), .act 0, .leave 0,
    .advance, .advance, .advance, .advance]

theorem vsync_calls_null : ∃ s, Run step (fun _ _ => True) opened unregistered s ∧
    s.pc = .callVsync none ∧ ¬ CallsProperly s := by
  refine ⟨_, final_run rfl, rfl, ?_⟩
  intro h
  obtain ⟨_, hp, _⟩ := (h none rfl).1
  cases hp

end Wingray.HwcVsync
