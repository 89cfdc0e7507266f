import Wingray.WhisperDock

/-!
# The identity of a dock

An ID success hands over bytes of three arrays that live as long as the
thread. In one pass of the UART branch the three guarded reads refill them,
unless a guard skips one.
-/

set_option autoImplicit false

namespace Wingray.WhisperIdentity
open Wingray.GuardedRun Wingray.WhisperDock

def Stored (s : Dock) (c : Cell) : Prop := c.source = .uart s.history.attempt

def StatusFresh (s : Dock) : Prop := ∀ i ∈ [1, 2, 3], Stored s (s.statusFuse i)

def FuseFresh (s : Dock) : Prop := ∀ i ∈ [1, 2, 3, 4], Stored s (s.fsNo i)

def RomFresh (s : Dock) : Prop := ∀ i ∈ [3, 4], Stored s (s.romSn i)

def Fresh (s : Dock) : Prop := ∀ c ∈ s.usedCells, Stored s c

theorem fresh_of_arrays {s : Dock} (hs : StatusFresh s) (hf : FuseFresh s) (hr : RomFresh s) :
    Fresh s := by
  intro c hc
  simp only [Dock.usedCells, List.mem_cons, List.not_mem_nil, or_false] at hc
  rcases hc with rfl | rfl | rfl | rfl | rfl | rfl | rfl | rfl | rfl
  · exact hs 1 (by simp)
  · exact hs 2 (by simp)
  · exact hs 3 (by simp)
  · exact hf 1 (by simp)
  · exact hf 2 (by simp)
  · exact hf 3 (by simp)
  · exact hf 4 (by simp)
  · exact hr 3 (by simp)
  · exact hr 4 (by simp)

/-- What the arrays hold while the protocol thread stands at a given place of
an attempt. -/
def Traced (s : Dock) : Pc → Prop
  | .branchUart | .branchHid | .hid _ | .hidGuard _ _ | .hidSuccess =>
    s.globalState ≠ .DOCKED_IDSUCC ∧ s.history.uartAttempt = false
  | .openChannel | .wakeup _ | .wakeupCheck _ _ | .guard1 _ | .read1 | .guard2 false
  | .guard3 false => s.globalState ≠ .DOCKED_IDSUCC
  | .guard2 true | .read2 => s.globalState ≠ .DOCKED_IDSUCC ∧ StatusFresh s
  | .guard3 true | .read3 => s.globalState ≠ .DOCKED_IDSUCC ∧ StatusFresh s ∧
    (s.history.fuseSkipped = false → FuseFresh s)
  | .idSuccess => StatusFresh s ∧ (s.history.fuseSkipped = false → FuseFresh s) ∧ RomFresh s
  | .closeChannel | .checkSuccess => s.globalState = .DOCKED_IDSUCC →
    s.history.uartAttempt = true → s.history.fuseSkipped = false → Fresh s
  | _ => True

theorem copied_fresh (s : Dock) (rx : Fin 7 → WhisperCrc.Byte) (out : CellMemory.Memory Cell)
    (is : List ℕ) (hl : ∀ i ∈ is, i < 7) :
    ∀ i ∈ is, Stored s (copyResults rx (.uart s.history.attempt) out i) := by
  intro i hi
  simp [Stored, copyResults, hl i hi]

theorem statusFresh_read (s : Dock) (rx : Fin 7 → WhisperCrc.Byte) :
    StatusFresh (s.read1 (some rx)) := by
  intro i hi
  simp only [List.mem_cons, List.not_mem_nil, or_false] at hi
  rcases hi with rfl | rfl | rfl <;> rfl

theorem afterHid_traced {s : Dock} (h : Traced s (.hid .statusQuery)) (op : HidOp)
    (ok : Bool) : Traced s (Dock.afterHid ok op) := by
  cases op with
  | statusQuery | statusRead | idQuery => exact h
  | idRead => exact fun hg => absurd hg h.1

theorem guard2_traced {s : Dock} {ok : Bool} (h : Traced s (.guard2 ok)) :
    Traced (s.guard2 ok) (s.guard2 ok).pc := by
  simp only [Dock.guard2]
  cases ok with
  | false =>
    rw [if_neg (fun hg => absurd hg.2 (by decide))]
    exact h
  | true =>
    split_ifs
    · exact h
    · exact ⟨h.1, h.2, fun hs => (nomatch hs)⟩

theorem guard3_traced {s : Dock} {ok : Bool} (h : Traced s (.guard3 ok)) :
    Traced (s.guard3 ok) (s.guard3 ok).pc := by
  simp only [Dock.guard3]
  cases ok with
  | false =>
    rw [if_neg (fun hg => absurd hg.2 (by decide))]
    exact fun hg => absurd hg h
  | true =>
    split_ifs
    · exact h
    · exact fun hg => absurd hg h.1

theorem protStep_traced {s s' : Dock} {input : Input} (h : protStep s input = some s')
    (hi : Traced s s.pc) : Traced s' s'.pc := by
  cases protStep_cases h with
  | semWait ok hpc => cases ok <;> trivial
  | checkUndocked hpc =>
    simp only [Dock.checkUndocked]
    split_ifs <;> trivial
  | checkProtocol hpc =>
    simp only [Dock.checkProtocol]
    split_ifs <;> trivial
  | ioctlResult site i ok hpc =>
    simp only [Dock.ioctlResult]
    split_ifs
    · cases site <;> trivial
    · trivial
    · cases site <;> trivial
  | loopGuard hpc =>
    simp only [Dock.loopGuard]
    split_ifs with ht hg
    · trivial
    · exact ⟨by simp [Dock.check, hg], rfl⟩
    · trivial
  | branchUart hpc =>
    rw [hpc] at hi
    simp only [Dock.branchUart]
    split_ifs
    · exact hi.1
    · exact hi
  | openChannel ok hpc =>
    rw [hpc] at hi
    cases ok with
    | true => exact hi
    | false => exact fun hg => absurd hg hi
  | wakeup tryWakeup ok hpc =>
    rw [hpc] at hi
    simp only [Dock.wakeup]
    split_ifs <;> exact hi
  | wakeupCheck tryWakeup wakeupSuccess hpc =>
    rw [hpc] at hi
    simp only [Dock.wakeupCheck]
    split_ifs <;> exact hi
  | guard1 wakeupSuccess hpc =>
    rw [hpc] at hi
    simp only [Dock.guard1]
    split_ifs
    · exact fun hg => absurd hg hi
    · exact hi
    · exact fun hg => absurd hg hi
  | read1 rx hpc =>
    rw [hpc] at hi
    cases rx with
    | none => exact hi
    | some rx => exact ⟨hi, statusFresh_read s rx⟩
  | guard2 ok hpc => exact guard2_traced (hpc ▸ hi)
  | read2 rx hpc =>
    rw [hpc] at hi
    cases rx with
    | none => exact hi.1
    | some rx => exact ⟨hi.1, hi.2, fun _ => copied_fresh s rx s.fsNo [1, 2, 3, 4] (by decide)⟩
  | guard3 ok hpc => exact guard3_traced (hpc ▸ hi)
  | read3 rx hpc =>
    rw [hpc] at hi
    cases rx with
    | none => exact fun hg => absurd hg hi.1
    | some rx => exact ⟨hi.2.1, hi.2.2, copied_fresh s rx s.romSn [3, 4] (by decide)⟩
  | idSuccess hpc =>
    rw [hpc] at hi
    exact fun _ _ hskip => fresh_of_arrays hi.1 (hi.2.1 hskip) hi.2.2
  | closeChannel hpc =>
    rw [hpc] at hi
    exact hi
  | branchHid hpc =>
    rw [hpc] at hi
    simp only [Dock.branchHid]
    split_ifs
    · exact hi
    · exact fun hg => absurd hg hi.1
  | hidGuard op ok hpc =>
    rw [hpc] at hi
    simp only [Dock.hidGuard]
    split_ifs
    · exact hi
    · exact afterHid_traced hi op ok
  | hidReport bytes hpc =>
    rw [hpc] at hi
    exact hi
  | hid op ok hpc =>
    rw [hpc] at hi
    exact afterHid_traced hi op ok
  | hidSuccess hpc =>
    rw [hpc] at hi
    exact fun _ hu => absurd (hi.2.symm.trans hu) (by decide)
  | checkSuccess hpc =>
    simp only [Dock.checkSuccess]
    split_ifs <;> trivial
  | checkDocked hpc =>
    simp only [Dock.checkDocked]
    split_ifs <;> trivial
  | ioctl | verdictSet | failSet | release => trivial

section Frame

variable {s s' : Dock} (hf : UeventFrame s s')
include hf

theorem stored_frame (c : Cell) : Stored s' c ↔ Stored s c := by
  simp only [Stored]
  rw [hf.attempt]

theorem statusFresh_frame (h : StatusFresh s) : StatusFresh s' := by
  intro i hi
  rw [hf.statusFuse, stored_frame hf]
  exact h i hi

theorem fuseFresh_frame (h : FuseFresh s) : FuseFresh s' := by
  intro i hi
  rw [hf.fsNo, stored_frame hf]
  exact h i hi

theorem romFresh_frame (h : RomFresh s) : RomFresh s' := by
  intro i hi
  rw [hf.romSn, stored_frame hf]
  exact h i hi

theorem fresh_frame (h : Fresh s) : Fresh s' := by
  have hcells : s'.usedCells = s.usedCells := by
    simp only [Dock.usedCells, hf.statusFuse, hf.fsNo, hf.romSn]
  intro c hc
  rw [stored_frame hf]
  exact h c (hcells ▸ hc)

end Frame

theorem uevent_identified {s s' : Dock} (h : UeventMove s s')
    (hg : s'.globalState = .DOCKED_IDSUCC) : s.globalState = .DOCKED_IDSUCC := by
  cases h with
  | other hg' => exact hg'.symm.trans hg
  | docked hg' => exact absurd (hg'.symm.trans hg) (by decide)
  | undocked hg' => exact absurd (hg'.symm.trans hg) (by decide)

theorem ueventStep_traced {s s' : Dock} {input : UeventInput} (h : ueventStep s input = some s')
    (hi : Traced s s.pc) : Traced s' s'.pc := by
  obtain ⟨hf, hmove⟩ := ueventStep_moves h
  have hg := uevent_identified hmove
  have hskip := hf.fuseSkipped
  rw [hf.pc]
  cases hpc : s.pc with
  | branchUart | branchHid | hid | hidGuard | hidSuccess =>
    rw [hpc] at hi
    exact ⟨fun h => hi.1 (hg h), hf.uartAttempt.trans hi.2⟩
  | openChannel | wakeup | wakeupCheck | guard1 | read1 =>
    rw [hpc] at hi
    exact fun h => hi (hg h)
  | guard2 ok =>
    rw [hpc] at hi
    cases ok with
    | false => exact fun h => hi (hg h)
    | true => exact ⟨fun h => hi.1 (hg h), statusFresh_frame hf hi.2⟩
  | read2 =>
    rw [hpc] at hi
    exact ⟨fun h => hi.1 (hg h), statusFresh_frame hf hi.2⟩
  | guard3 ok =>
    rw [hpc] at hi
    cases ok with
    | false => exact fun h => hi (hg h)
    | true =>
      exact ⟨fun h => hi.1 (hg h), statusFresh_frame hf hi.2.1,
        fun h => fuseFresh_frame hf (hi.2.2 (hskip ▸ h))⟩
  | read3 =>
    rw [hpc] at hi
    exact ⟨fun h => hi.1 (hg h), statusFresh_frame hf hi.2.1,
      fun h => fuseFresh_frame hf (hi.2.2 (hskip ▸ h))⟩
  | idSuccess =>
    rw [hpc] at hi
    exact ⟨statusFresh_frame hf hi.1, fun h => fuseFresh_frame hf (hi.2.1 (hskip ▸ h)),
      romFresh_frame hf hi.2.2⟩
  | closeChannel | checkSuccess =>
    rw [hpc] at hi
    exact fun h hu hs => fresh_frame hf (hi (hg h) (hf.uartAttempt ▸ hu) (hskip ▸ hs))
  | _ => trivial

/-! ## A skipped read leaves older bytes -/

def FuseStale (s : Dock) : Prop := ∀ i, ¬ Stored s (s.fsNo i)

/-- The places of an attempt before the second read has an outcome. -/
def BeforeFuse : Pc → Bool
  | .branchUart | .openChannel | .wakeup _ | .wakeupCheck _ _ | .guard1 _ | .read1 | .guard2 _
  | .read2 | .branchHid | .hid _ | .hidGuard _ _ | .hidSuccess => true
  | _ => false

structure Aged (s : Dock) : Prop where
  bounded : ∀ i n, (s.fsNo i).source = .uart n → n ≤ s.history.attempt
  before : BeforeFuse s.pc = true → s.history.fuseSkipped = false ∧ FuseStale s
  skipped : s.history.fuseSkipped = true → FuseStale s

theorem aged_same {s s' : Dock} (h : Aged s) (hfs : s'.fsNo = s.fsNo)
    (ha : s'.history.attempt = s.history.attempt)
    (hk : s'.history.fuseSkipped = s.history.fuseSkipped)
    (hp : BeforeFuse s'.pc = true → BeforeFuse s.pc = true) : Aged s' := by
  have hstale : FuseStale s → FuseStale s' := by
    intro hs i
    rw [Stored, hfs, ha]
    exact hs i
  constructor
  case bounded =>
    rw [hfs, ha]
    exact h.bounded
  case before =>
    intro hb
    obtain ⟨hskip, hs⟩ := h.before (hp hb)
    exact ⟨hk.trans hskip, hstale hs⟩
  case skipped => exact fun hs => hstale (h.skipped (hk ▸ hs))

theorem aged_within {s s' : Dock} {p : Pc} (h : Aged s) (hpc : s.pc = p)
    (hp : BeforeFuse p = true) (hfs : s'.fsNo = s.fsNo)
    (ha : s'.history.attempt = s.history.attempt)
    (hk : s'.history.fuseSkipped = s.history.fuseSkipped) : Aged s' :=
  aged_same h hfs ha hk (fun _ => hpc ▸ hp)

theorem aged_outside {s s' : Dock} (h : Aged s) (hp : BeforeFuse s'.pc = false)
    (hfs : s'.fsNo = s.fsNo) (ha : s'.history.attempt = s.history.attempt)
    (hk : s'.history.fuseSkipped = s.history.fuseSkipped) : Aged s' :=
  aged_same h hfs ha hk (fun hb => absurd (hp.symm.trans hb) (by decide))

theorem loopGuard_aged {s : Dock} (h : Aged s) : Aged s.loopGuard := by
  simp only [Dock.loopGuard]
  split_ifs
  · exact aged_outside h rfl rfl rfl rfl
  · -- no cell carries the number of the attempt that starts here
    have hstale : ∀ i, ¬ (s.fsNo i).source = .uart (s.history.attempt+1) := by
      intro i hi
      have := h.bounded i _ hi
      omega
    exact ⟨fun i n hi => Nat.le_succ_of_le (h.bounded i n hi), fun _ => ⟨rfl, hstale⟩,
      fun _ => hstale⟩
  · exact aged_outside h rfl rfl rfl rfl

theorem guard2_aged {s : Dock} {ok : Bool} (h : Aged s) (hpc : s.pc = .guard2 ok) :
    Aged (s.guard2 ok) := by
  have hb := h.before (by rw [hpc]; rfl)
  simp only [Dock.guard2]
  split_ifs
  · exact aged_within h hpc rfl rfl rfl rfl
  · exact ⟨h.bounded, fun hb' => (nomatch hb'), fun _ => hb.2⟩

theorem read2_aged {s : Dock} (h : Aged s) (hpc : s.pc = .read2)
    (rx : Option (Fin 7 → WhisperCrc.Byte)) : Aged (s.read2 rx) := by
  have hb := h.before (by rw [hpc]; rfl)
  cases rx with
  | none => exact aged_outside h rfl rfl rfl rfl
  | some rx =>
    constructor
    case bounded =>
      intro i n hi
      simp only [Dock.read2, Dock.goto, copyResults] at hi ⊢
      split_ifs at hi with hlt
      · obtain rfl := Source.uart.inj hi
        exact le_rfl
      · exact h.bounded i n hi
    case before => exact fun hb' => (nomatch hb')
    case skipped => exact fun hs => absurd (hb.1.symm.trans hs) (by decide)

theorem storeReport_aged {s : Dock} (h : Aged s) (hpc : s.pc = .hid .idRead)
    (bytes : Fin 64 → WhisperCrc.Byte) : Aged ((s.storeReport bytes).goto .hidSuccess) := by
  have hb := h.before (by rw [hpc]; rfl)
  have hcell : ∀ i n, ((s.storeReport bytes).fsNo i).source = .uart n →
      (s.fsNo i).source = .uart n := by
    intro i n hi
    simp only [Dock.storeReport, copyReport] at hi
    split_ifs at hi
    exact hi
  constructor
  case bounded => exact fun i n hi => h.bounded i n (hcell i n hi)
  case before => exact fun _ => ⟨hb.1, fun i hi => hb.2 i (hcell i _ hi)⟩
  case skipped => exact fun hs => absurd (hb.1.symm.trans hs) (by decide)

theorem protStep_aged {s s' : Dock} {input : Input} (h : protStep s input = some s')
    (hi : Aged s) : Aged s' := by
  cases protStep_cases h with
  | semWait ok hpc => cases ok <;> exact aged_outside hi rfl rfl rfl rfl
  | checkUndocked hpc =>
    simp only [Dock.checkUndocked]
    split_ifs <;> exact aged_outside hi rfl rfl rfl rfl
  | checkProtocol hpc =>
    simp only [Dock.checkProtocol]
    split_ifs <;> exact aged_outside hi rfl rfl rfl rfl
  | ioctlResult site i ok hpc =>
    simp only [Dock.ioctlResult]
    split_ifs
    · cases site <;> exact aged_outside hi rfl rfl rfl rfl
    · exact aged_outside hi rfl rfl rfl rfl
    · cases site <;> exact aged_outside hi rfl rfl rfl rfl
  | loopGuard hpc => exact loopGuard_aged hi
  | branchUart hpc =>
    simp only [Dock.branchUart]
    split_ifs <;> exact aged_within hi hpc rfl rfl rfl rfl
  | openChannel ok hpc => exact aged_within hi hpc rfl rfl rfl rfl
  | wakeup tryWakeup ok hpc =>
    simp only [Dock.wakeup]
    split_ifs <;> exact aged_within hi hpc rfl rfl rfl rfl
  | wakeupCheck tryWakeup wakeupSuccess hpc =>
    simp only [Dock.wakeupCheck]
    split_ifs <;> exact aged_within hi hpc rfl rfl rfl rfl
  | guard1 wakeupSuccess hpc =>
    simp only [Dock.guard1]
    split_ifs <;> exact aged_within hi hpc rfl rfl rfl rfl
  | read1 rx hpc => cases rx <;> exact aged_within hi hpc rfl rfl rfl rfl
  | guard2 ok hpc => exact guard2_aged hi hpc
  | read2 rx hpc => exact read2_aged hi hpc rx
  | guard3 ok hpc =>
    simp only [Dock.guard3]
    split_ifs <;> exact aged_outside hi rfl rfl rfl rfl
  | read3 rx hpc => cases rx <;> exact aged_outside hi rfl rfl rfl rfl
  | branchHid hpc =>
    simp only [Dock.branchHid]
    split_ifs <;> exact aged_within hi hpc rfl rfl rfl rfl
  | hidGuard op ok hpc =>
    simp only [Dock.hidGuard]
    split_ifs <;> exact aged_within hi hpc rfl rfl rfl rfl
  | hidReport bytes hpc => exact storeReport_aged hi hpc bytes
  | hid op ok hpc => exact aged_within hi hpc rfl rfl rfl rfl
  | checkSuccess hpc =>
    simp only [Dock.checkSuccess]
    split_ifs <;> exact aged_outside hi rfl rfl rfl rfl
  | checkDocked hpc =>
    simp only [Dock.checkDocked]
    split_ifs <;> exact aged_outside hi rfl rfl rfl rfl
  | ioctl | idSuccess | closeChannel | hidSuccess | verdictSet | failSet | release =>
    exact aged_outside hi rfl rfl rfl rfl

theorem ueventStep_aged {s s' : Dock} {input : UeventInput} (h : ueventStep s input = some s')
    (hi : Aged s) : Aged s' := by
  have hf := (ueventStep_moves h).1
  exact aged_same hi hf.fsNo hf.attempt hf.fuseSkipped (fun hb => hf.pc ▸ hb)

/-! ## The identity over whole runs -/

/-- The step that finds the success of a UART attempt and hands the identity
over to the driver. -/
def HandsOver (s : Dock) (l : Label) : Prop :=
  (∃ input, l = .protocol input) ∧ s.pc = .checkSuccess ∧ s.globalState = .DOCKED_IDSUCC ∧
    s.history.uartAttempt = true

def IdentityFresh (s : Dock) (l : Label) : Prop := HandsOver s l → Fresh s

def SecondReadMade (s : Dock) (l : Label) : Prop :=
  HandsOver s l → s.history.fuseSkipped = false

theorem identityFresh_of_secondRead {s t : Dock} {ls : List Label}
    (hr : Run step SecondReadMade s ls t) (hs : Traced s s.pc) : Run step IdentityFresh s ls t := by
  apply hr.transfer (fun s => Traced s s.pc) _ hs
  intro s l s' hi ho h
  constructor
  · intro hh
    have hskip := ho hh
    obtain ⟨_, hpc, hg, hu⟩ := hh
    rw [hpc] at hi
    exact hi hg hu hskip
  · cases l with
    | protocol input => exact protStep_traced h hi
    | uevent input => exact ueventStep_traced h hi

theorem secondRead_of_identityFresh {s t : Dock} {ls : List Label}
    (hr : Run step IdentityFresh s ls t) (hs : Aged s) : Run step SecondReadMade s ls t := by
  apply hr.transfer Aged _ hs
  intro s l s' hi ho h
  constructor
  · intro hh
    by_contra hne
    exact hi.skipped (by simpa using hne) 1 (ho hh _ (by simp [Dock.usedCells]))
  · cases l with
    | protocol input => exact protStep_aged h hi
    | uevent input => exact ueventStep_aged h hi

section Runs

variable (statusFuse fsNo romSn : CellMemory.Memory WhisperCrc.Byte)

theorem start_aged : Aged (.start statusFuse fsNo romSn) :=
  ⟨fun _ _ h => (nomatch h), fun h => (nomatch h), fun h => (nomatch h)⟩

/-- Every identity a run hands over is made of bytes that the reads of the same
attempt stored, exactly when no attempt that hands one over skipped its second
read. -/
theorem identity_fresh_iff (ls : List Label) (t : Dock) :
    Run step IdentityFresh (.start statusFuse fsNo romSn) ls t ↔
      Run step SecondReadMade (.start statusFuse fsNo romSn) ls t :=
  ⟨fun h => secondRead_of_identityFresh h (start_aged statusFuse fsNo romSn),
    fun h => identityFresh_of_secondRead h trivial⟩

end Runs

def redocked : List Label :=
  [.uevent (.switch .failed), .uevent .silent, .uevent (.switch .attached), .uevent (.nodes []),
    .uevent .silent, .protocol (.outcome true), .protocol .silent, .protocol .silent,
    .protocol (.outcome true), .protocol .silent, .protocol .silent, .protocol .silent,
    .protocol (.outcome true), .protocol (.outcome true), .protocol .silent, .protocol .silent,
    .protocol (.response (some (fun _ => 7))), .uevent (.uevent .UART),
    .uevent (.switch .notAttached), .uevent .silent, .protocol .silent,
    .uevent (.uevent .UART), .uevent (.switch .attached), .protocol .silent,
    .protocol (.response (some (fun _ => 7))), .protocol .silent, .protocol .silent]

theorem redock_mixes_identity :
    (∃ t, Run step (fun _ _ => True) .blank (redocked ++ [.protocol .silent]) t) ∧
    ¬ ∃ t, Run step IdentityFresh .blank (redocked ++ [.protocol .silent]) t := by
  constructor
  · exact ⟨_, final_run rfl⟩
  · rintro ⟨t, hr⟩
    obtain ⟨u, hu, hfresh, hstep⟩ := hr.last
    have hview : (final step (fun _ _ => True) .blank redocked).map
        (fun u => (u.pc, u.globalState, u.history.uartAttempt, (u.fsNo 1).source)) =
        some (.checkSuccess, .DOCKED_IDSUCC, true, .init) := rfl
    rw [run_final hu, Option.map_some, Option.some.injEq] at hview
    simp only [Prod.mk.injEq] at hview
    obtain ⟨hpc, hg, hua, hsource⟩ := hview
    have hstored := hfresh ⟨⟨.silent, rfl⟩, hpc, hg, hua⟩ (u.fsNo 1) (by simp [Dock.usedCells])
    rw [Stored, hsource] at hstored
    cases hstored

end Wingray.WhisperIdentity
