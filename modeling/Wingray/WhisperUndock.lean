import Wingray.WhisperDock

/-!
# An undock is not lost

The protocol thread looks at `globalState` and writes it later. An undock that
the uevent thread processes in between is overwritten.
-/

set_option autoImplicit false

namespace Wingray.WhisperUndock
open Wingray.GuardedRun Wingray.WhisperDock

def WritesDocked : Pc → Bool
  | .ioctlResult _ _ ok => ok
  | .idSuccess | .hidSuccess | .verdictSet | .failSet => true
  | _ => false

/-- The places between a check of `globalState` and a docked write it guards. -/
def Pending : Pc → Bool
  | .checkProtocol | .ioctl _ _ | .ioctlResult _ _ _ | .read3 | .idSuccess => true
  | .hid op => op = .idRead
  | .hidSuccess | .verdictSet | .failSet => true
  | _ => false

/-! ## What a step of the protocol thread does to `globalState` -/

def SameFlags (s s' : Dock) : Prop :=
  s'.history.undocked = s.history.undocked ∧
  s'.history.undockedSinceCheck = s.history.undockedSinceCheck

inductive Move (s s' : Dock) : Prop
  | inside (hw : WritesDocked s.pc = false) (hp : Pending s'.pc = true → Pending s.pc = true)
      (hg : s'.globalState = s.globalState) (hf : SameFlags s s')
  | checked (hw : WritesDocked s.pc = false)
      (hp : Pending s'.pc = true → s.globalState ≠ .UNDOCKED)
      (hg : s'.globalState = s.globalState) (hu : s'.history.undocked = s.history.undocked)
      (hc : s'.history.undockedSinceCheck = false)
  | undocked (hw : WritesDocked s.pc = false) (hp : Pending s'.pc = true → Pending s.pc = true)
      (hg : s'.globalState = .UNDOCKED) (hf : SameFlags s s')
  | docked (hw : WritesDocked s.pc = true) (hp : Pending s.pc = true)
      (hg : s'.globalState ≠ .UNDOCKED) (hf : SameFlags s s')

section Moves

variable {s : Dock} {p : Pc} (hpc : s.pc = p)
include hpc

theorem inside_moves {s' : Dock} (hw : WritesDocked p = false)
    (hp : Pending s'.pc = true → Pending p = true) (hg : s'.globalState = s.globalState)
    (hf : SameFlags s s') : Move s s' :=
  .inside (hpc ▸ hw) (hpc ▸ hp) hg hf

theorem goto_calm (pc : Pc) (hw : WritesDocked p = false) (hp : Pending pc = false) :
    Move s (s.goto pc) :=
  inside_moves hpc hw (fun h => absurd (hp.symm.trans h) (by decide)) rfl ⟨rfl, rfl⟩

theorem check_moves {s' : Dock} (hw : WritesDocked p = false)
    (hp : Pending s'.pc = true → s.globalState ≠ .UNDOCKED)
    (hg : s'.globalState = s.globalState) (hu : s'.history.undocked = s.history.undocked)
    (hc : s'.history.undockedSinceCheck = false) : Move s s' :=
  .checked (hpc ▸ hw) hp hg hu hc

theorem check_calm (pc : Pc) (hw : WritesDocked p = false) (hp : Pending pc = false) :
    Move s (s.check pc) :=
  check_moves hpc hw (fun h => absurd (hp.symm.trans h) (by decide)) rfl rfl rfl

theorem write_moves (g : GlobalState) (pc : Pc) (hw : WritesDocked p = true)
    (hp : Pending p = true) (hg : g ≠ .UNDOCKED) : Move s (s.write g pc) :=
  .docked (hpc ▸ hw) (hpc ▸ hp) hg ⟨rfl, rfl⟩

omit hpc in
theorem docked_ne (h : s.globalState = .DOCKED) : s.globalState ≠ .UNDOCKED := by
  rw [h]
  decide

theorem guard_moves (pc pc' : Pc) (ok : Bool) (hw : WritesDocked p = false)
    (hp : Pending pc' = false) :
    Move s (if s.globalState = .DOCKED ∧ ok then s.check pc else s.check pc') := by
  split_ifs with hg
  · exact check_moves hpc hw (fun _ => docked_ne hg.1) rfl rfl rfl
  · exact check_calm hpc pc' hw hp

end Moves

section Branches

variable {s : Dock}

theorem ioctlResult_moves (site : Site) (i : ℕ) (ok : Bool) (hpc : s.pc = .ioctlResult site i ok) :
    Move s (s.ioctlResult site i ok) := by
  have hp : Pending s.pc = true := by rw [hpc]; rfl
  cases ok with
  | true =>
    have hw : WritesDocked s.pc = true := by rw [hpc]; rfl
    have hg : (s.ioctlResult site i true).globalState = .DOCKED := by cases site <;> rfl
    have hf : SameFlags s (s.ioctlResult site i true) := by cases site <;> exact ⟨rfl, rfl⟩
    exact .docked hw hp (by rw [hg]; decide) hf
  | false =>
    have hw : WritesDocked s.pc = false := by rw [hpc]; rfl
    by_cases hi : i+1 < MAX_TRY_IOCTL
    · have hs : s.ioctlResult site i false = s.write .UNDOCKED (.ioctl site (i+1)) := by
        simp [Dock.ioctlResult, hi]
      rw [hs]
      exact .undocked hw (fun _ => hp) rfl ⟨rfl, rfl⟩
    · have hs : s.ioctlResult site i false = (s.write .UNDOCKED s.pc).leaveIoctl site := by
        simp [Dock.ioctlResult, hi]
      have hg : ((s.write .UNDOCKED s.pc).leaveIoctl site).globalState = .UNDOCKED := by
        cases site <;> rfl
      have hf : SameFlags s ((s.write .UNDOCKED s.pc).leaveIoctl site) := by
        cases site <;> exact ⟨rfl, rfl⟩
      rw [hs]
      exact .undocked hw (fun _ => hp) hg hf

theorem loopGuard_moves (hpc : s.pc = .loopGuard) : Move s s.loopGuard := by
  simp only [Dock.loopGuard]
  split_ifs with ht hg
  · exact goto_calm hpc _ rfl rfl
  · exact check_moves hpc rfl (fun _ => docked_ne hg) rfl rfl rfl
  · exact check_calm hpc _ rfl rfl

theorem checkSuccess_moves (hpc : s.pc = .checkSuccess) : Move s s.checkSuccess := by
  simp only [Dock.checkSuccess]
  split_ifs with hg
  · exact check_moves hpc rfl (fun _ => by rw [hg]; decide) rfl rfl rfl
  · exact check_calm hpc _ rfl rfl

theorem checkDocked_moves (hpc : s.pc = .checkDocked) : Move s s.checkDocked := by
  simp only [Dock.checkDocked]
  split_ifs with hg
  · exact check_moves hpc rfl (fun _ => docked_ne hg) rfl rfl rfl
  · exact check_moves hpc rfl (fun _ => docked_ne hg) rfl rfl rfl
  · exact check_calm hpc _ rfl rfl

end Branches

theorem protStep_moves {s s' : Dock} {input : Input} (h : protStep s input = some s') :
    Move s s' := by
  cases protStep_cases h with
  | semWait ok hpc =>
    cases ok <;> exact inside_moves hpc rfl (fun hp => (nomatch hp)) rfl ⟨rfl, rfl⟩
  | checkUndocked hpc =>
    simp only [Dock.checkUndocked]
    split_ifs with hg
    · exact check_calm hpc _ rfl rfl
    · exact check_moves hpc rfl (fun _ => hg) rfl rfl rfl
  | checkProtocol hpc =>
    simp only [Dock.checkProtocol]
    split_ifs <;> exact inside_moves hpc rfl (fun _ => rfl) rfl ⟨rfl, rfl⟩
  | ioctl site i ok hpc => exact inside_moves hpc rfl (fun _ => rfl) rfl ⟨rfl, rfl⟩
  | ioctlResult site i ok hpc => exact ioctlResult_moves site i ok hpc
  | loopGuard hpc => exact loopGuard_moves hpc
  | branchUart hpc =>
    simp only [Dock.branchUart]
    split_ifs <;> exact inside_moves hpc rfl (fun hp => (nomatch hp)) rfl ⟨rfl, rfl⟩
  | openChannel ok hpc => cases ok <;> exact goto_calm hpc _ rfl rfl
  | wakeup tryWakeup ok hpc =>
    simp only [Dock.wakeup]
    split_ifs <;> exact goto_calm hpc _ rfl rfl
  | wakeupCheck tryWakeup wakeupSuccess hpc =>
    simp only [Dock.wakeupCheck]
    split_ifs <;> exact check_calm hpc _ rfl rfl
  | guard1 wakeupSuccess hpc =>
    simp only [Dock.guard1]
    split_ifs
    · exact goto_calm hpc _ rfl rfl
    · exact check_calm hpc _ rfl rfl
    · exact check_calm hpc _ rfl rfl
  | read1 rx hpc | read2 rx hpc =>
    cases rx <;> exact inside_moves hpc rfl (fun hp => (nomatch hp)) rfl ⟨rfl, rfl⟩
  | read3 rx hpc =>
    cases rx <;> exact inside_moves hpc rfl (fun _ => rfl) rfl ⟨rfl, rfl⟩
  | guard2 ok hpc =>
    simp only [Dock.guard2]
    split_ifs
    · exact check_calm hpc _ rfl rfl
    · exact check_moves hpc rfl (fun hp => (nomatch hp)) rfl rfl rfl
  | guard3 ok hpc => exact guard_moves hpc _ _ ok rfl rfl
  | branchHid hpc =>
    simp only [Dock.branchHid]
    split_ifs <;> exact goto_calm hpc _ rfl rfl
  | hidGuard op ok hpc => exact guard_moves hpc _ _ ok rfl (by cases op <;> rfl)
  | hidReport bytes hpc => exact inside_moves hpc rfl (fun _ => rfl) rfl ⟨rfl, rfl⟩
  | hid op ok hpc => exact goto_calm hpc _ rfl (by cases op <;> rfl)
  | closeChannel hpc | release hpc => exact goto_calm hpc _ rfl rfl
  | idSuccess hpc | hidSuccess hpc | verdictSet hpc | failSet hpc =>
    exact write_moves hpc _ _ rfl rfl (by decide)
  | checkSuccess hpc => exact checkSuccess_moves hpc
  | checkDocked hpc => exact checkDocked_moves hpc

/-! ## Undocks over whole runs -/

/-- An undock processed with no dock since makes the state watched. -/
structure Watched (s : Dock) : Prop where
  kept : s.history.undocked = true → s.globalState = .UNDOCKED
  seen : Pending s.pc = true → s.history.undocked = true → s.history.undockedSinceCheck = true

/-- With an undock processed and no dock since, a step of the protocol thread
leaves `globalState` undocked. -/
def UndockKept (s : Dock) (l : Label) : Prop :=
  ∀ input s', l = .protocol input → step s l = some s' → s.history.undocked = true →
    s'.globalState = .UNDOCKED

/-- A docked write of the protocol thread has no undock, still without a dock
after it, between the last check and the write. -/
def NoUndockSinceCheck (s : Dock) (l : Label) : Prop :=
  ∀ input, l = .protocol input → WritesDocked s.pc = true →
    s.history.undockedSinceCheck = false

theorem protStep_watched {s s' : Dock} {input : Input} (h : protStep s input = some s')
    (hi : Watched s)
    (hu : WritesDocked s.pc = true → s.history.undockedSinceCheck = false) :
    Watched s' ∧ (s.history.undocked = true → s'.globalState = .UNDOCKED) := by
  cases protStep_moves h with
  | inside hw hp hg hf =>
    have hkept : s.history.undocked = true → s'.globalState = .UNDOCKED :=
      fun hun => hg.trans (hi.kept hun)
    have hseen : Pending s'.pc = true → s'.history.undocked = true →
        s'.history.undockedSinceCheck = true := by
      rw [hf.1, hf.2]
      exact fun hpend => hi.seen (hp hpend)
    exact ⟨⟨hf.1 ▸ hkept, hseen⟩, hkept⟩
  | checked hw hp hg hun hc =>
    have hkept : s.history.undocked = true → s'.globalState = .UNDOCKED :=
      fun hun => hg.trans (hi.kept hun)
    have hseen : Pending s'.pc = true → s'.history.undocked = true →
        s'.history.undockedSinceCheck = true := by
      rw [hun]
      exact fun hpend hun' => absurd (hi.kept hun') (hp hpend)
    exact ⟨⟨hun ▸ hkept, hseen⟩, hkept⟩
  | undocked hw hp hg hf =>
    have hseen : Pending s'.pc = true → s'.history.undocked = true →
        s'.history.undockedSinceCheck = true := by
      rw [hf.1, hf.2]
      exact fun hpend => hi.seen (hp hpend)
    exact ⟨⟨fun _ => hg, hseen⟩, fun _ => hg⟩
  | docked hw hp hg hf =>
    -- a docked write after an unseen undock is what the condition excludes
    have hclear : s.history.undocked = false := by
      by_contra hne
      have hseen := hi.seen hp (by simpa using hne)
      rw [hu hw] at hseen
      exact absurd hseen (by decide)
    have hclear' : s'.history.undocked = false := hf.1.trans hclear
    constructor
    · exact ⟨fun h => absurd (hclear'.symm.trans h) (by decide),
        fun _ h => absurd (hclear'.symm.trans h) (by decide)⟩
    · exact fun hun => absurd (hclear.symm.trans hun) (by decide)

theorem ueventStep_watched {s s' : Dock} {input : UeventInput}
    (h : ueventStep s input = some s') (hi : Watched s) : Watched s' := by
  obtain ⟨hframe, hmove⟩ := ueventStep_moves h
  cases hmove with
  | other hg hu hc =>
    constructor
    · rw [hu, hg]
      exact hi.kept
    · rw [hframe.pc, hu, hc]
      exact hi.seen
  | docked hg hu hc =>
    exact ⟨fun h => absurd (hu.symm.trans h) (by decide),
      fun _ h => absurd (hu.symm.trans h) (by decide)⟩
  | undocked hg hu hc => exact ⟨fun _ => hg, fun _ _ => hc⟩

def Recorded (s : Dock) : Prop :=
  s.history.undockedSinceCheck = true → s.history.undocked = true

theorem protStep_recorded {s s' : Dock} {input : Input} (h : protStep s input = some s')
    (hi : Recorded s) : Recorded s' := by
  simp only [Recorded] at hi ⊢
  cases protStep_moves h with
  | inside _ _ _ hf | undocked _ _ _ hf | docked _ _ _ hf =>
    rw [hf.1, hf.2]
    exact hi
  | checked _ _ _ _ hc => exact fun h => absurd (hc.symm.trans h) (by decide)

theorem ueventStep_recorded {s s' : Dock} {input : UeventInput}
    (h : ueventStep s input = some s') (hi : Recorded s) : Recorded s' := by
  simp only [Recorded] at hi ⊢
  cases (ueventStep_moves h).2 with
  | other _ hu hc =>
    rw [hu, hc]
    exact hi
  | docked _ _ hc => exact fun h => absurd (hc.symm.trans h) (by decide)
  | undocked _ hu _ => exact fun _ => hu

theorem undockKept_of_window {s t : Dock} {ls : List Label}
    (hr : Run step NoUndockSinceCheck s ls t) (hs : Watched s) : Run step UndockKept s ls t := by
  apply hr.transfer Watched _ hs
  intro s l s' hi ho h
  cases l with
  | protocol input =>
    obtain ⟨hi', hk⟩ := protStep_watched h hi (ho input rfl)
    have hkept : UndockKept s (.protocol input) := by
      intro input' s'' hl h'
      obtain rfl := Option.some.inj (h.symm.trans h')
      exact hk
    exact ⟨hkept, hi'⟩
  | uevent input => exact ⟨fun _ _ hl => (nomatch hl), ueventStep_watched h hi⟩

theorem window_of_undockKept {s t : Dock} {ls : List Label}
    (hr : Run step UndockKept s ls t) (hs : Recorded s) :
    Run step NoUndockSinceCheck s ls t := by
  apply hr.transfer Recorded _ hs
  intro s l s' hi ho h
  cases l with
  | protocol input =>
    have hwindow : NoUndockSinceCheck s (.protocol input) := by
      intro _ _ hw
      by_contra hne
      have hkept := ho input s' rfl h (hi (by simpa using hne))
      cases protStep_moves h with
      | inside hw' | checked hw' | undocked hw' => exact absurd (hw'.symm.trans hw) (by decide)
      | docked _ _ hg _ => exact hg hkept
    exact ⟨hwindow, protStep_recorded h hi⟩
  | uevent input => exact ⟨fun _ hl => (nomatch hl), ueventStep_recorded h hi⟩

section Runs

variable (statusFuse fsNo romSn : CellMemory.Memory WhisperCrc.Byte)

theorem start_watched : Watched (.start statusFuse fsNo romSn) :=
  ⟨fun h => (nomatch h), fun _ h => (nomatch h)⟩

theorem start_recorded : Recorded (.start statusFuse fsNo romSn) := fun h => nomatch h

/-- A run loses no undock exactly when none of its docked writes has an undock,
without a dock after it, between the check that guards the write and the
write. -/
theorem undock_kept_iff (ls : List Label) (t : Dock) :
    Run step UndockKept (.start statusFuse fsNo romSn) ls t ↔
      Run step NoUndockSinceCheck (.start statusFuse fsNo romSn) ls t :=
  ⟨fun h => window_of_undockKept h (start_recorded statusFuse fsNo romSn),
    fun h => undockKept_of_window h (start_watched statusFuse fsNo romSn)⟩

end Runs

def lostUndock : List Label :=
  [.uevent (.switch .failed), .uevent .silent, .uevent (.switch .attached), .uevent (.nodes []),
    .uevent .silent, .protocol (.outcome true), .protocol .silent, .protocol .silent,
    .uevent (.uevent .UART), .uevent (.switch .notAttached), .protocol (.outcome true)]

theorem undock_overwritten :
    (∃ t, Run step (fun _ _ => True) .blank (lostUndock ++ [.protocol .silent]) t) ∧
    ¬ ∃ t, Run step UndockKept .blank (lostUndock ++ [.protocol .silent]) t := by
  constructor
  · exact ⟨_, final_run rfl⟩
  · rintro ⟨t, hr⟩
    obtain ⟨u, hu, hkept, hstep⟩ := hr.last
    have hundocked : (final step (fun _ _ => True) .blank lostUndock).map
        (fun u => u.history.undocked) = some true := rfl
    have hdocked : (final step (fun _ _ => True) .blank (lostUndock ++ [.protocol .silent])).map
        (fun t => t.globalState) = some .DOCKED := rfl
    rw [run_final hu, Option.map_some, Option.some.injEq] at hundocked
    rw [run_final hr, Option.map_some, Option.some.injEq] at hdocked
    have hlost := hkept .silent t rfl hstep hundocked
    rw [hdocked] at hlost
    cases hlost

end Wingray.WhisperUndock
