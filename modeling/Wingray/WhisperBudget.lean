import Wingray.RunTally
import Wingray.WhisperDock

/-!
# What one dock session can cost

A session runs from a passed `sem_wait` to the next. Its retry counter is
compared, incremented and reset under a `globalState` that the uevent thread may
change at any moment; the attempts and verdicts that are still possible without
a further dock event are a function of the place and of these two variables.
-/

set_option autoImplicit false

namespace Wingray.WhisperBudget
open Wingray.GuardedRun Wingray.RunTally Wingray.WhisperDock

/-! ## Counting -/

def entries (place : Pc → Bool) (s : Dock) (l : Label) : ℕ :=
  match step s l with
  | some s' => if place s'.pc && !place s.pc then 1 else 0
  | none => 0

def atAttempt (pc : Pc) : Bool := pc = .branchUart

/-- The first ioctl of a call that sends a verdict. -/
def atVerdict : Pc → Bool
  | .ioctl .verdict i | .ioctl .failure i => i = 0
  | _ => false

def attempts : Dock → Label → ℕ := entries atAttempt

def verdicts : Dock → Label → ℕ := entries atVerdict

def attemptStarts (s : Dock) (l : Label) : Bool := attempts s l ≠ 0

def wakeups (s : Dock) : Label → ℕ
  | .protocol _ => match s.pc with
    | .wakeup _ => 1
    | _ => 0
  | .uevent _ => 0

def dockEvents (_ : Dock) : Label → ℕ
  | .uevent (.switch .attached) => 1
  | _ => 0

def InSession (s : Dock) (_ : Label) : Prop := s.pc ≠ .semWait

/-! ## What is still possible -/

def opening : Pc → Bool
  | .checkUndocked | .checkProtocol => true
  | .ioctl site _ | .ioctlResult site _ _ => site = .enableUart
  | _ => false

/-- Places from which the loop is left unless a dock event follows. -/
def closing : Pc → Bool
  | .ioctl _ _ | .ioctlResult _ _ _ | .verdictSet | .failSet | .release | .semWait | .stopped => true
  | _ => false

def inside (pc : Pc) : Bool :=
  !opening pc && !closing pc && pc ≠ .loopGuard && pc ≠ .checkDocked

/-- A step within the loop body leaves the retry counter alone and docks nothing. -/
structure InsideStep (s s' : Dock) : Prop where
  inside : inside s'.pc = true
  noAttempt : s'.pc ≠ .branchUart
  tryComm : s'.tryComm = s.tryComm
  globalState : s'.globalState = s.globalState ∨ s'.globalState = .DOCKED_IDSUCC

section Inside

variable {s : Dock} (pc : Pc) (hp : inside pc = true) (ha : pc ≠ .branchUart)
include hp ha

theorem goto_inside : InsideStep s (s.goto pc) := ⟨hp, ha, rfl, .inl rfl⟩

theorem check_inside : InsideStep s (s.check pc) := ⟨hp, ha, rfl, .inl rfl⟩

theorem write_inside : InsideStep s (s.write .DOCKED_IDSUCC pc) := ⟨hp, ha, rfl, .inr rfl⟩

end Inside

/-- The steps of the protocol thread, those of one attempt taken together. -/
inductive LoopCase (s : Dock) : Input → Dock → Prop
  | semWait (ok : Bool) (hpc : s.pc = .semWait) : LoopCase s (.outcome ok) (s.semWait ok)
  | checkUndocked (hpc : s.pc = .checkUndocked) : LoopCase s .silent s.checkUndocked
  | checkProtocol (hpc : s.pc = .checkProtocol) : LoopCase s .silent s.checkProtocol
  | ioctl (site : Site) (i : ℕ) (ok : Bool) (hpc : s.pc = .ioctl site i) :
      LoopCase s (.outcome ok) (s.goto (.ioctlResult site i ok))
  | ioctlResult (site : Site) (i : ℕ) (ok : Bool) (hpc : s.pc = .ioctlResult site i ok) :
      LoopCase s .silent (s.ioctlResult site i ok)
  | loopGuard (hpc : s.pc = .loopGuard) : LoopCase s .silent s.loopGuard
  | inside (input : Input) (s' : Dock) (hp : inside s.pc = true) (hi : InsideStep s s') :
      LoopCase s input s'
  | checkSuccess (hpc : s.pc = .checkSuccess) : LoopCase s .silent s.checkSuccess
  | verdictSet (hpc : s.pc = .verdictSet) : LoopCase s .silent (s.write .DOCKED_IDSUCC .checkDocked)
  | checkDocked (hpc : s.pc = .checkDocked) : LoopCase s .silent s.checkDocked
  | failSet (hpc : s.pc = .failSet) : LoopCase s .silent (s.write .DOCKED_IDFAIL .loopGuard)
  | release (hpc : s.pc = .release) : LoopCase s .silent (s.goto .semWait)

theorem inside_case {s s' : Dock} {input : Input} {p : Pc} (hpc : s.pc = p)
    (hp : inside p = true) (hi : InsideStep s s') : LoopCase s input s' :=
  .inside input s' (hpc ▸ hp) hi

theorem protStep_loop {s s' : Dock} {input : Input} (h : protStep s input = some s') :
    LoopCase s input s' := by
  cases protStep_cases h with
  | semWait ok hpc hsem => exact .semWait ok hpc
  | checkUndocked hpc => exact .checkUndocked hpc
  | checkProtocol hpc => exact .checkProtocol hpc
  | ioctl site i ok hpc => exact .ioctl site i ok hpc
  | ioctlResult site i ok hpc => exact .ioctlResult site i ok hpc
  | loopGuard hpc => exact .loopGuard hpc
  | branchUart hpc =>
    apply inside_case hpc rfl
    simp only [Dock.branchUart]
    split_ifs
    · exact ⟨rfl, (fun h => nomatch h), rfl, .inl rfl⟩
    · exact goto_inside _ rfl (by decide)
  | openChannel ok hpc =>
    apply inside_case hpc rfl
    cases ok with
    | true => exact goto_inside _ rfl (by decide)
    | false => exact goto_inside _ rfl (by decide)
  | wakeup tryWakeup ok hpc =>
    apply inside_case hpc rfl
    simp only [Dock.wakeup]
    split_ifs <;> exact goto_inside _ rfl (fun h => nomatch h)
  | wakeupCheck tryWakeup wakeupSuccess hpc =>
    apply inside_case hpc rfl
    simp only [Dock.wakeupCheck]
    split_ifs <;> exact check_inside _ rfl (fun h => nomatch h)
  | guard1 wakeupSuccess hpc =>
    apply inside_case hpc rfl
    simp only [Dock.guard1]
    split_ifs
    · exact goto_inside _ rfl (by decide)
    · exact check_inside _ rfl (by decide)
    · exact check_inside _ rfl (by decide)
  | read1 rx hpc | read2 rx hpc | read3 rx hpc =>
    apply inside_case hpc rfl
    cases rx with
    | some rx => exact ⟨rfl, (fun h => nomatch h), rfl, .inl rfl⟩
    | none => exact goto_inside _ rfl (fun h => nomatch h)
  | guard2 ok hpc =>
    apply inside_case hpc rfl
    simp only [Dock.guard2]
    split_ifs
    · exact check_inside _ rfl (by decide)
    · exact ⟨rfl, (fun h => nomatch h), rfl, .inl rfl⟩
  | guard3 ok hpc =>
    apply inside_case hpc rfl
    simp only [Dock.guard3]
    split_ifs <;> exact check_inside _ rfl (by decide)
  | idSuccess hpc => exact inside_case hpc rfl (write_inside _ rfl (by decide))
  | closeChannel hpc => exact inside_case hpc rfl (goto_inside _ rfl (by decide))
  | branchHid hpc =>
    apply inside_case hpc rfl
    simp only [Dock.branchHid]
    split_ifs <;> exact goto_inside _ rfl (by decide)
  | hidGuard op ok hpc =>
    apply inside_case hpc rfl
    simp only [Dock.hidGuard]
    split_ifs
    · exact check_inside _ rfl (fun h => nomatch h)
    · cases op <;> exact check_inside _ rfl (fun h => nomatch h)
  | hidReport bytes hpc =>
    exact inside_case hpc rfl ⟨rfl, (fun h => nomatch h), rfl, .inl rfl⟩
  | hid op ok hpc hop =>
    apply inside_case hpc rfl
    cases op <;> exact goto_inside _ rfl (fun h => nomatch h)
  | hidSuccess hpc => exact inside_case hpc rfl (write_inside _ rfl (by decide))
  | checkSuccess hpc => exact .checkSuccess hpc
  | verdictSet hpc => exact .verdictSet hpc
  | checkDocked hpc => exact .checkDocked hpc
  | failSet hpc => exact .failSet hpc
  | release hpc => exact .release hpc

def triesLeft (s : Dock) (tries : ℕ) : ℕ :=
  if s.globalState = .DOCKED then tries-s.tryComm else 0

/-- The attempts still possible without a further dock event. -/
def attemptsLeft (s : Dock) : ℕ :=
  if opening s.pc then MAX_TRY_COMM
  else if closing s.pc then 0
  else if s.pc = .loopGuard then
    if s.tryComm = 0 then 0 else triesLeft s (MAX_TRY_COMM+1)
  else triesLeft s MAX_TRY_COMM

def verdictsLeft (s : Dock) : ℕ :=
  if opening s.pc then 1
  else if closing s.pc then 0
  else if s.pc = .loopGuard then
    if s.tryComm = 0 then 0 else if s.globalState = .DOCKED then 1 else 0
  else if s.pc = .checkDocked then if s.globalState = .DOCKED then 1 else 0
  else 1

theorem attemptsLeft_le (s : Dock) : attemptsLeft s ≤ MAX_TRY_COMM := by
  simp only [attemptsLeft, triesLeft, MAX_TRY_COMM]
  split_ifs <;> omega

theorem verdictsLeft_le (s : Dock) : verdictsLeft s ≤ 1 := by
  simp only [verdictsLeft]
  split_ifs <;> omega

/-- The retry counter, which is first set when the loop is entered. -/
def Counted (s : Dock) : Prop :=
  opening s.pc = false → s.pc ≠ .semWait → s.tryComm ≤ MAX_TRY_COMM

theorem counted_le {s : Dock} (hc : Counted s) {p : Pc} (hpc : s.pc = p)
    (ho : opening p = false) (hw : p ≠ .semWait) : s.tryComm ≤ MAX_TRY_COMM :=
  hc (hpc ▸ ho) (hpc ▸ hw)

def entered (place : Pc → Bool) (s s' : Dock) : ℕ :=
  if place s'.pc && !place s.pc then 1 else 0

theorem entries_step (place : Pc → Bool) {s s' : Dock} {l : Label} (h : step s l = some s') :
    entries place s l = entered place s s' := by
  rw [entries, h]
  rfl

/-- A step that pays for the attempt and the verdict it begins. -/
structure Paid (s s' : Dock) : Prop where
  counted : Counted s'
  attempts : entered atAttempt s s'+attemptsLeft s' ≤ attemptsLeft s
  verdicts : entered atVerdict s s'+verdictsLeft s' ≤ verdictsLeft s

section Places

variable {s s' : Dock}

theorem inside_paid (hc : Counted s) (hp : inside s.pc = true) (hi : InsideStep s s') :
    Paid s s' := by
  have hp' := hi.inside
  have ha := hi.noAttempt
  have ht := hi.tryComm
  have hg : s'.globalState = .DOCKED → s.globalState = .DOCKED := by
    intro hd
    rcases hi.globalState with hsame | hsucc
    · exact hsame ▸ hd
    · exact absurd (hd.symm.trans hsucc) (by decide)
  simp only [inside, Bool.and_eq_true, Bool.not_eq_true', decide_eq_true_eq] at hp hp'
  obtain ⟨⟨⟨ho, hcl⟩, hl⟩, hd⟩ := hp
  obtain ⟨⟨⟨ho', hcl'⟩, hl'⟩, hd'⟩ := hp'
  have hverdict : atVerdict s'.pc = false := by
    cases hpc : s'.pc with
    | ioctl site i => rw [hpc] at hcl'; cases hcl'
    | _ => rfl
  constructor
  case counted =>
    intro _ _
    rw [ht]
    apply hc ho
    intro hw
    rw [hw] at hcl
    cases hcl
  case attempts =>
    simp only [entered, atAttempt, ha, attemptsLeft, ho, ho', hcl, hcl', hl, hl', triesLeft, ht]
    simp only [decide_false, Bool.false_and, Bool.false_eq_true, if_false]
    split_ifs with h1 h2
    · omega
    · exact absurd (hg h1) h2
    · omega
    · omega
  case verdicts =>
    simp only [entered, hverdict, verdictsLeft, ho, ho', hcl, hcl', hl, hl', hd, hd']
    simp

theorem closing_paid (hp : closing s'.pc = true) (ho : opening s'.pc = false)
    (hv : atVerdict s'.pc = false) (hc : Counted s') : Paid s s' := by
  have ha : atAttempt s'.pc = false := by
    cases hpc : s'.pc with
    | branchUart => rw [hpc] at hp; cases hp
    | _ => rfl
  constructor
  · exact hc
  · simp [entered, ha, attemptsLeft, ho, hp]
  · simp [entered, hv, verdictsLeft, ho, hp]

theorem opening_paid (hp : opening s.pc = true) (ho : opening s'.pc = true ∨
    s'.pc = .loopGuard ∧ s'.tryComm ≤ MAX_TRY_COMM) (hv : atVerdict s'.pc = false) :
    Paid s s' := by
  have ha : atAttempt s'.pc = false := by
    cases hpc : s'.pc with
    | branchUart => rw [hpc] at ho; simp [opening] at ho
    | _ => rfl
  have hattempts := attemptsLeft_le s'
  have hverdicts := verdictsLeft_le s'
  constructor
  case counted =>
    intro hno _
    rcases ho with ho | ho
    · rw [hno] at ho
      cases ho
    · exact ho.2
  case attempts => simpa [entered, ha, attemptsLeft, hp] using hattempts
  case verdicts => simpa [entered, hv, verdictsLeft, hp] using hverdicts

end Places

section Branches

variable {s : Dock}

theorem settled_paid (hc : Counted s) {p : Pc} (hpc : s.pc = p) (ho : opening p = false)
    (hw : p ≠ .semWait) {pc : Pc} (hpc' : pc = .checkDocked ∨ pc = .loopGuard) {g : GlobalState}
    (hg : g ≠ .DOCKED) : Paid s (s.write g pc) := by
  have ht := counted_le hc hpc ho hw
  constructor
  case counted => exact fun _ _ => ht
  case attempts =>
    rcases hpc' with rfl | rfl <;>
      simp [entered, atAttempt, attemptsLeft, triesLeft, opening, closing, hg, Dock.write]
  case verdicts =>
    rcases hpc' with rfl | rfl <;>
      simp [entered, atVerdict, verdictsLeft, opening, closing, hg, Dock.write]

theorem ioctlResult_paid (hc : Counted s) (site : Site) (i : ℕ) (ok : Bool)
    (hpc : s.pc = .ioctlResult site i ok) : Paid s (s.ioctlResult site i ok) := by
  cases site with
  | enableUart =>
    apply opening_paid
    · rw [hpc]
      rfl
    · simp only [Dock.ioctlResult]
      split_ifs
      · exact .inr ⟨rfl, Nat.le_succ 1⟩
      · exact .inl rfl
      · exact .inr ⟨rfl, Nat.le_succ 1⟩
    · simp only [Dock.ioctlResult]
      split_ifs <;> rfl
  | verdict | failure =>
    have ht := counted_le hc hpc rfl (fun h => nomatch h)
    simp only [Dock.ioctlResult]
    split_ifs <;> exact closing_paid rfl rfl rfl (fun _ _ => ht)

theorem loopGuard_paid (hc : Counted s) (hpc : s.pc = .loopGuard) : Paid s s.loopGuard := by
  have ht := counted_le hc hpc rfl (fun h => nomatch h)
  simp only [Dock.loopGuard]
  split_ifs with hz hg
  · exact closing_paid rfl rfl rfl (fun _ _ => ht)
  · -- an attempt begins
    constructor
    case counted => exact fun _ _ => ht
    case attempts =>
      simp [entered, atAttempt, attemptsLeft, triesLeft, opening, closing, hpc, hz, hg, Dock.check]
      omega
    case verdicts =>
      simp [entered, atVerdict, verdictsLeft, opening, closing, hpc, hz, hg, Dock.check]
  · exact closing_paid rfl rfl rfl (fun _ _ => ht)

theorem checkSuccess_paid (hc : Counted s) (hpc : s.pc = .checkSuccess) :
    Paid s s.checkSuccess := by
  have ht := counted_le hc hpc rfl (fun h => nomatch h)
  simp only [Dock.checkSuccess]
  split_ifs with hg
  · -- a verdict begins and nothing follows it
    constructor
    case counted => exact fun _ _ => Nat.zero_le _
    case attempts => simp [entered, atAttempt, attemptsLeft, opening, closing, Dock.check]
    case verdicts => simp [entered, atVerdict, verdictsLeft, opening, closing, hpc, Dock.check]
  · constructor
    case counted => exact fun _ _ => ht
    case attempts =>
      have hsame : triesLeft (s.check .checkDocked) MAX_TRY_COMM = triesLeft s MAX_TRY_COMM := rfl
      simp only [Dock.check] at hsame
      simp [entered, atAttempt, attemptsLeft, opening, closing, hpc, Dock.check, hsame]
    case verdicts =>
      have hone : verdictsLeft s = 1 := by simp [verdictsLeft, opening, closing, hpc]
      have hnone : entered atVerdict s (s.check .checkDocked) = 0 := rfl
      rw [hone, hnone, Nat.zero_add]
      exact verdictsLeft_le _

theorem checkDocked_paid (hc : Counted s) (hpc : s.pc = .checkDocked) : Paid s s.checkDocked := by
  have ht := counted_le hc hpc rfl (fun h => nomatch h)
  simp only [Dock.checkDocked]
  split_ifs with hg hm
  · constructor
    case counted => exact fun _ _ => Nat.zero_le _
    case attempts => simp [entered, atAttempt, attemptsLeft, opening, closing, Dock.check]
    case verdicts => simp [entered, atVerdict, verdictsLeft, opening, closing, hpc, hg, Dock.check]
  · constructor
    case counted =>
      intro _ _
      exact Nat.lt_of_le_of_ne ht hm
    case attempts =>
      simp [entered, atAttempt, attemptsLeft, triesLeft, opening, closing, hpc, hg, Dock.check]
    case verdicts =>
      simp [entered, atVerdict, verdictsLeft, opening, closing, hpc, hg, Dock.check]
  · constructor
    case counted => exact fun _ _ => ht
    case attempts =>
      simp [entered, atAttempt, attemptsLeft, triesLeft, opening, closing, hpc, hg, Dock.check]
    case verdicts =>
      simp [entered, atVerdict, verdictsLeft, opening, closing, hpc, hg, Dock.check]

end Branches

theorem protStep_paid {s s' : Dock} {input : Input} (h : protStep s input = some s')
    (hs : s.pc ≠ .semWait) (hc : Counted s) : Paid s s' := by
  cases protStep_loop h with
  | semWait ok hpc => exact absurd hpc hs
  | checkUndocked hpc =>
    simp only [Dock.checkUndocked]
    split_ifs
    · exact closing_paid rfl rfl rfl (fun _ hw => absurd rfl hw)
    · exact opening_paid (by rw [hpc]; rfl) (.inl rfl) rfl
  | checkProtocol hpc =>
    simp only [Dock.checkProtocol]
    split_ifs
    · exact opening_paid (by rw [hpc]; rfl) (.inl rfl) rfl
    · exact opening_paid (by rw [hpc]; rfl) (.inr ⟨rfl, Nat.le_succ 1⟩) rfl
  | ioctl site i ok hpc =>
    cases site with
    | enableUart => exact opening_paid (by rw [hpc]; rfl) (.inl rfl) rfl
    | verdict | failure =>
      have ht := counted_le hc hpc rfl (fun h => nomatch h)
      exact closing_paid rfl rfl rfl (fun _ _ => ht)
  | ioctlResult site i ok hpc => exact ioctlResult_paid hc site i ok hpc
  | loopGuard hpc => exact loopGuard_paid hc hpc
  | inside _ _ hp hi => exact inside_paid hc hp hi
  | checkSuccess hpc => exact checkSuccess_paid hc hpc
  | verdictSet hpc => exact settled_paid hc hpc rfl (by decide) (.inl rfl) (by decide)
  | checkDocked hpc => exact checkDocked_paid hc hpc
  | failSet hpc => exact settled_paid hc hpc rfl (by decide) (.inr rfl) (by decide)
  | release hpc => exact closing_paid rfl rfl rfl (fun _ hw => absurd rfl hw)

/-! ## Steps and sessions -/

theorem readSwitchState_docks (s : Dock) (phase : Phase) (reading : Reading)
    (h : dockEvents s (.uevent (.switch reading)) = 0) :
    (readSwitchState s phase reading).globalState = .DOCKED → s.globalState = .DOCKED := by
  cases reading with
  | failed => exact id
  | attached => cases h
  | notAttached => exact fun hg => nomatch hg

theorem ueventStep_docks {s s' : Dock} {input : UeventInput} (h : ueventStep s input = some s')
    (hd : dockEvents s (.uevent input) = 0) :
    s'.globalState = .DOCKED → s.globalState = .DOCKED := by
  revert h
  simp only [ueventStep]
  split <;> intro h <;> try obtain rfl := Option.some.inj h
  case h_1 _ phase reading _ => exact readSwitchState_docks s phase reading hd
  case h_2 => exact id
  case h_3 _ phase _ =>
    obtain ⟨uevent, sem, hpost⟩ := postStart_eq s phase
    rw [hpost]
    exact id
  case h_4 => exact id
  case h_5 => cases h

theorem ueventStep_left {s s' : Dock} {input : UeventInput} (h : ueventStep s input = some s') :
    attemptsLeft s' ≤ attemptsLeft s+MAX_TRY_COMM*dockEvents s (.uevent input) ∧
    verdictsLeft s' ≤ verdictsLeft s+dockEvents s (.uevent input) := by
  have hframe := (ueventStep_moves h).1
  by_cases hd : dockEvents s (.uevent input) = 0
  · have hg := ueventStep_docks h hd
    simp only [hd, Nat.mul_zero, Nat.add_zero]
    simp only [attemptsLeft, verdictsLeft, triesLeft, hframe.pc, hframe.tryComm]
    by_cases hold : s.globalState = .DOCKED
    · simp only [if_pos hold]
      constructor <;> split_ifs <;> omega
    · simp only [if_neg hold, if_neg (fun hnew => hold (hg hnew))]
      exact ⟨le_rfl, le_rfl⟩
  · have hattempts := attemptsLeft_le s'
    have hverdicts := verdictsLeft_le s'
    have hone := Nat.pos_of_ne_zero hd
    constructor
    · have := Nat.le_mul_of_pos_right MAX_TRY_COMM hone
      omega
    · omega

theorem entered_uevent (place : Pc → Bool) {s s' : Dock} (hpc : s'.pc = s.pc) :
    entered place s s' = 0 := by
  simp [entered, hpc]

/-- A step of either thread pays for what it begins, up to what a dock event
brings. -/
theorem step_paid {s s' : Dock} {l : Label} (hc : Counted s) (hs : InSession s l)
    (h : step s l = some s') :
    (attempts s l+attemptsLeft s' ≤ attemptsLeft s+MAX_TRY_COMM*dockEvents s l) ∧
    (verdicts s l+verdictsLeft s' ≤ verdictsLeft s+dockEvents s l) ∧ Counted s' := by
  simp only [attempts, verdicts, entries_step _ h]
  cases l with
  | protocol input =>
    have hp := protStep_paid h hs hc
    exact ⟨hp.attempts, hp.verdicts, hp.counted⟩
  | uevent input =>
    have hframe := (ueventStep_moves h).1
    have hleft := ueventStep_left h
    rw [entered_uevent _ hframe.pc, entered_uevent _ hframe.pc, Nat.zero_add, Nat.zero_add]
    refine ⟨hleft.1, hleft.2, ?_⟩
    simp only [Counted, hframe.pc, hframe.tryComm]
    exact hc

/-! ## Wakeup calls -/

def TryInRange : Pc → Prop
  | .wakeup tryWakeup => 1 ≤ tryWakeup ∧ tryWakeup ≤ MAX_TRY_WAKEUP
  | .wakeupCheck tryWakeup _ => tryWakeup ≤ MAX_TRY_WAKEUP
  | _ => True

def wakeupsMade : Pc → ℕ
  | .branchUart | .openChannel => 0
  | .wakeup tryWakeup => tryWakeup-1
  | .wakeupCheck tryWakeup _ => if tryWakeup = 0 then MAX_TRY_WAKEUP else tryWakeup-1
  | _ => MAX_TRY_WAKEUP

theorem wakeupsMade_le (pc : Pc) (h : TryInRange pc) : wakeupsMade pc ≤ MAX_TRY_WAKEUP := by
  cases pc with
  | wakeup tryWakeup =>
    have := h.2
    simp only [wakeupsMade]
    omega
  | wakeupCheck tryWakeup ok =>
    simp only [TryInRange] at h
    simp only [wakeupsMade]
    split_ifs <;> omega
  | branchUart | openChannel => exact Nat.zero_le _
  | _ => exact le_rfl

def waking : Pc → Bool
  | .branchUart | .openChannel | .wakeup _ | .wakeupCheck _ _ => true
  | _ => false

theorem wakeupsMade_rest {pc : Pc} (h : waking pc = false) :
    wakeupsMade pc = MAX_TRY_WAKEUP ∧ TryInRange pc := by
  cases pc with
  | branchUart | openChannel | wakeup | wakeupCheck => cases h
  | _ => exact ⟨rfl, trivial⟩

inductive Wakes (s : Dock) (s' : Dock) : Prop
  | begins (hpc : s.pc = .loopGuard) (hpc' : s'.pc = .branchUart)
  | opens (hpc : s.pc = .branchUart) (hpc' : s'.pc = .openChannel)
  | first (hpc : s.pc = .openChannel) (hpc' : s'.pc = .wakeup 1)
  | called (tryWakeup : ℕ) (hpc : s.pc = .wakeup tryWakeup)
      (hpc' : (∃ ok, s'.pc = .wakeupCheck 0 ok) ∨
        tryWakeup ≠ MAX_TRY_WAKEUP ∧ s'.pc = .wakeupCheck (tryWakeup+1) false)
  | again (tryWakeup : ℕ) (ok : Bool) (hpc : s.pc = .wakeupCheck tryWakeup ok)
      (hz : tryWakeup ≠ 0) (hpc' : s'.pc = .wakeup tryWakeup)

theorem protStep_wakes {s s' : Dock} {input : Input} (h : protStep s input = some s')
    (hw : waking s'.pc = true) : Wakes s s' := by
  cases protStep_cases h with
  | semWait ok hpc hsem =>
    simp only [Dock.semWait] at hw
    split_ifs at hw <;> cases hw
  | checkUndocked hpc =>
    simp only [Dock.checkUndocked] at hw
    split_ifs at hw <;> cases hw
  | checkProtocol hpc =>
    simp only [Dock.checkProtocol] at hw
    split_ifs at hw <;> cases hw
  | ioctl site i ok hpc => cases hw
  | ioctlResult site i ok hpc =>
    simp only [Dock.ioctlResult] at hw
    split_ifs at hw <;> cases site <;> cases hw
  | loopGuard hpc =>
    simp only [Dock.loopGuard] at hw ⊢
    split_ifs at hw ⊢
    · cases hw
    · exact .begins hpc rfl
    · cases hw
  | branchUart hpc =>
    simp only [Dock.branchUart] at hw ⊢
    split_ifs at hw ⊢
    · exact .opens hpc rfl
    · cases hw
  | openChannel ok hpc =>
    cases ok with
    | true => exact .first hpc rfl
    | false => cases hw
  | wakeup tryWakeup ok hpc =>
    apply Wakes.called tryWakeup hpc
    simp only [Dock.wakeup]
    split_ifs with hok hmax
    · exact .inl ⟨true, rfl⟩
    · exact .inl ⟨false, rfl⟩
    · exact .inr ⟨hmax, rfl⟩
  | wakeupCheck tryWakeup wakeupSuccess hpc =>
    simp only [Dock.wakeupCheck] at hw ⊢
    split_ifs at hw ⊢ with hend
    · cases hw
    · exact .again tryWakeup wakeupSuccess hpc (fun hz => hend (.inr hz)) rfl
  | guard1 wakeupSuccess hpc =>
    simp only [Dock.guard1] at hw
    split_ifs at hw <;> cases hw
  | read1 rx hpc | read2 rx hpc | read3 rx hpc => cases rx <;> cases hw
  | guard2 ok hpc =>
    simp only [Dock.guard2] at hw
    split_ifs at hw <;> cases hw
  | guard3 ok hpc =>
    simp only [Dock.guard3] at hw
    split_ifs at hw <;> cases hw
  | branchHid hpc =>
    simp only [Dock.branchHid] at hw
    split_ifs at hw <;> cases hw
  | hidGuard op ok hpc =>
    simp only [Dock.hidGuard] at hw
    split_ifs at hw <;> cases op <;> cases hw
  | hid op ok hpc hop => cases op <;> cases hw
  | checkSuccess hpc =>
    simp only [Dock.checkSuccess] at hw
    split_ifs at hw <;> cases hw
  | checkDocked hpc =>
    simp only [Dock.checkDocked] at hw
    split_ifs at hw <;> cases hw
  | idSuccess | closeChannel | hidReport | hidSuccess | verdictSet | failSet | release => cases hw

theorem wakeups_of (s : Dock) (input : Input) (hr : TryInRange s.pc) :
    wakeupsMade s.pc+wakeups s (.protocol input) ≤ MAX_TRY_WAKEUP := by
  cases hpc : s.pc with
  | wakeup tryWakeup =>
    rw [hpc] at hr
    obtain ⟨hpos, hmax⟩ := hr
    simp only [wakeupsMade, wakeups, hpc]
    omega
  | _ =>
    have hle := wakeupsMade_le s.pc hr
    simp only [wakeups, hpc] at hle ⊢
    exact hle

theorem protStep_counts {s s' : Dock} {input : Input} (h : protStep s input = some s')
    (hr : TryInRange s.pc) :
    (entered atAttempt s s' = 0 → wakeupsMade s.pc+wakeups s (.protocol input) ≤
      wakeupsMade s'.pc) ∧ TryInRange s'.pc := by
  by_cases hw : waking s'.pc = true
  · cases protStep_wakes h hw with
    | begins hpc hpc' =>
      rw [hpc']
      constructor
      · intro hno
        simp [entered, atAttempt, hpc, hpc'] at hno
      · trivial
    | opens hpc hpc' =>
      rw [hpc, hpc']
      exact ⟨fun _ => by simp [wakeupsMade, wakeups, hpc], trivial⟩
    | first hpc hpc' =>
      rw [hpc, hpc']
      exact ⟨fun _ => by simp [wakeupsMade, wakeups, hpc], by simp [TryInRange, MAX_TRY_WAKEUP]⟩
    | called tryWakeup hpc hpc' =>
      have hmade := wakeups_of s input hr
      rw [hpc] at hr hmade
      obtain ⟨hpos, hmax⟩ := hr
      rcases hpc' with ⟨ok, hpc'⟩ | ⟨hne, hpc'⟩
      · rw [hpc, hpc']
        exact ⟨fun _ => hmade, Nat.zero_le _⟩
      · rw [hpc, hpc']
        simp only [wakeupsMade, wakeups, hpc, TryInRange]
        constructor
        · intro _
          rw [if_neg (Nat.succ_ne_zero _)]
          omega
        · omega
    | again tryWakeup ok hpc hz hpc' =>
      rw [hpc] at hr
      rw [hpc, hpc']
      simp only [wakeupsMade, wakeups, hpc, TryInRange, if_neg hz]
      exact ⟨fun _ => le_rfl, Nat.pos_of_ne_zero hz, hr⟩
  · obtain ⟨hall, hin⟩ := wakeupsMade_rest (Bool.eq_false_iff.mpr hw)
    rw [hall]
    exact ⟨fun _ => wakeups_of s input hr, hin⟩

theorem step_counts {s s' : Dock} {l : Label} (hr : TryInRange s.pc) (h : step s l = some s') :
    (attemptStarts s l = false → wakeupsMade s.pc+wakeups s l ≤ wakeupsMade s'.pc) ∧
    TryInRange s'.pc := by
  simp only [attemptStarts, attempts, entries_step _ h]
  cases l with
  | protocol input =>
    obtain ⟨hmade, hin⟩ := protStep_counts h hr
    exact ⟨fun hno => hmade (by simpa using hno), hin⟩
  | uevent input =>
    have hframe := (ueventStep_moves h).1
    rw [hframe.pc]
    exact ⟨fun _ => le_rfl, hr⟩

/-! ## The bounds -/

/-- What a session may cost when `k` dock events are processed in it; the calls
of an attempt are counted up to every moment of the session. -/
structure WithinBudget (s : Dock) (ls : List Label) (k : ℕ) : Prop where
  attempts : tally step attempts s ls ≤ MAX_TRY_COMM*(k+1)
  wakeups : ∀ ks, ks <+: ls → since step wakeups attemptStarts 0 s ks ≤ MAX_TRY_WAKEUP
  verdicts : tally step verdicts s ls ≤ k+1

theorem counted_start {s : Dock} (hpc : s.pc = .checkUndocked) : Counted s := by
  intro ho
  rw [hpc] at ho
  cases ho

theorem attempts_bounded {s t : Dock} {ls : List Label} (hpc : s.pc = .checkUndocked)
    (hr : Run step InSession s ls t) :
    tally step attempts s ls ≤ MAX_TRY_COMM*(tally step dockEvents s ls+1) := by
  have hpaid : tally step attempts s ls+attemptsLeft t ≤
      attemptsLeft s+tally step (fun s l => MAX_TRY_COMM*dockEvents s l) s ls :=
    tally_le Counted attemptsLeft _ _
      (fun _ _ _ hc hs h => ⟨(step_paid hc hs h).1, (step_paid hc hs h).2.2⟩) hr
      (counted_start hpc)
  have hstart := attemptsLeft_le s
  rw [tally_mul] at hpaid
  rw [Nat.mul_add_one]
  omega

theorem verdicts_bounded {s t : Dock} {ls : List Label} (hpc : s.pc = .checkUndocked)
    (hr : Run step InSession s ls t) :
    tally step verdicts s ls ≤ tally step dockEvents s ls+1 := by
  have hpaid : tally step verdicts s ls+verdictsLeft t ≤
      verdictsLeft s+tally step dockEvents s ls :=
    tally_le Counted verdictsLeft _ _ (fun _ _ _ hc hs h => (step_paid hc hs h).2) hr
      (counted_start hpc)
  have hstart := verdictsLeft_le s
  omega

theorem wakeups_bounded {s t : Dock} {ls : List Label} (hpc : s.pc = .checkUndocked)
    (hr : Run step InSession s ls t) :
    since step wakeups attemptStarts 0 s ls ≤ MAX_TRY_WAKEUP := by
  have hin : TryInRange s.pc := by
    rw [hpc]
    trivial
  have hinv : TryInRange t.pc := hr.invariant (fun s => TryInRange s.pc)
    (fun _ _ _ hi _ h => (step_counts hi h).2) hin
  have hmade := since_le (fun s => TryInRange s.pc) (fun s => wakeupsMade s.pc) wakeups
    attemptStarts (fun s l s' hi _ h => step_counts hi h) hr hin 0 (Nat.zero_le _)
  exact hmade.trans (wakeupsMade_le t.pc hinv)

theorem session_within_budget {s t : Dock} {ls : List Label} (hpc : s.pc = .checkUndocked)
    (hr : Run step InSession s ls t) : WithinBudget s ls (tally step dockEvents s ls) where
  attempts := attempts_bounded hpc hr
  wakeups := by
    intro ks hks
    obtain ⟨ms, hms⟩ := hks
    rw [← hms] at hr
    obtain ⟨u, hu, _⟩ := hr.split
    exact wakeups_bounded hpc hu
  verdicts := verdicts_bounded hpc hr

def failingDock : Dock := { Dock.blank with
  pc := .checkUndocked
  globalState := .DOCKED
  uevent := .idle }

instance (s : Dock) (l : Label) : Decidable (InSession s l) :=
  inferInstanceAs (Decidable (s.pc ≠ .semWait))

def failingSession : List Label :=
  [.protocol .silent, .protocol .silent, .protocol (.outcome true), .protocol .silent,
    .protocol .silent, .protocol .silent, .protocol (.outcome false), .protocol .silent,
    .uevent (.uevent .UART), .uevent (.switch .attached)]

theorem session_within_budget_redock : WithinBudget failingDock failingSession 1 :=
  have hr : (final step InSession failingDock failingSession).isSome = true := by
    decide +kernel
  session_within_budget rfl (final_run (Option.some_get hr).symm)

end Wingray.WhisperBudget
