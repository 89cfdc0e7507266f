import Wingray.WhisperBudget

/-!
# What a verdict state says about the driver

The protocol thread writes `DOCKED_IDSUCC` or `DOCKED_IDFAIL` after it has sent
the verdict, whether or not one of the five ioctls succeeded. The requests that
the driver accepts are recorded beside the state.
-/

set_option autoImplicit false

namespace Wingray.WhisperVerdict
open Wingray.CellMemory Wingray.GuardedRun Wingray.WhisperDock Wingray.WhisperBudget
open Wingray.WhisperCrc (Byte)

structure Recorded where
  dock : Dock
  accepted : List Request

/-- An ioctl that returns success has accepted the request it was given. -/
def acceptedBy (s : Dock) (input : Input) : List Request :=
  match s.pc, input with
  | .ioctl _ _, .outcome true => [s.request]
  | _, _ => []

def recordStep (s : Recorded) (input : Input) : Option Recorded :=
  (protStep s.dock input).map (fun dock => ⟨dock, s.accepted ++ acceptedBy s.dock input⟩)

def InSession (s : Recorded) (_ : Input) : Prop := s.dock.pc ≠ .semWait

/-- What the request of each `doIoctl` call carries: the success bit, or the
zero that reports a failure. -/
def Bears : Site → Request → Prop
  | .enableUart, _ => True
  | .verdict, request => request.cmd &&& ID_SUCCESS = ID_SUCCESS
  | .failure, request => request.cmd = 0

def Accepted (s : Recorded) (site : Site) : Prop := ∃ request ∈ s.accepted, Bears site request

def Backed (s : Recorded) : GlobalState → Prop
  | .DOCKED_IDSUCC => Accepted s .verdict
  | .DOCKED_IDFAIL => Accepted s .failure
  | .UNDOCKED | .DOCKED => True

/-- The last of the `MAX_TRY_IOCTL` attempts to send a verdict has failed. -/
def lastTryFailed : Pc → Bool
  | .ioctlResult .verdict i false | .ioctlResult .failure i false => MAX_TRY_IOCTL ≤ i+1
  | _ => false

def Exhausted (s : Recorded) (inputs : List Input) : Prop :=
  ∃ earlier later u, inputs = earlier ++ later ∧ Run recordStep InSession s earlier u ∧
    lastTryFailed u.dock.pc = true

structure Faithful (s t : Recorded) (inputs : List Input) : Prop where
  backed : Backed t t.dock.globalState
  undocked : Exhausted s inputs → t.dock.globalState = .UNDOCKED

/-- A verdict state that a session of the HID protocol finds and that no
accepted request stands behind. -/
def Leftover (s : Recorded) : Prop :=
  s.dock.globalProtocol = .HID ∧ ¬ Backed s s.dock.globalState

/-! ## What stands behind each place -/

def Vouched (s : Recorded) : Prop :=
  match s.dock.pc with
  | .checkUndocked | .checkProtocol => s.dock.globalProtocol = .HID → Backed s s.dock.globalState
  | .ioctl site _ => Bears site s.dock.request
  | .ioctlResult site _ ok => Bears site s.dock.request ∧ (ok = true → Accepted s site)
  | .verdictSet => Accepted s .verdict
  | .failSet => Accepted s .failure
  | .loopGuard | .checkDocked | .release | .semWait | .stopped => Backed s s.dock.globalState
  | _ => s.dock.globalState = .DOCKED_IDFAIL → Accepted s .failure

theorem identity_bears (s : Dock) : Bears .verdict s.identity := by
  simp only [Bears, Dock.identity, dockType]
  split_ifs <;> decide

theorem vouched_inside {s : Recorded} (h : inside s.dock.pc = true) :
    Vouched s ↔ (s.dock.globalState = .DOCKED_IDFAIL → Accepted s .failure) := by
  simp only [Vouched]
  cases hpc : s.dock.pc with
  | checkUndocked | checkProtocol | verdictSet | failSet => simp [hpc, inside, opening, closing] at h
  | loopGuard | checkDocked | release | semWait | stopped =>
    simp [hpc, inside, opening, closing] at h
  | ioctl | ioctlResult => simp [hpc, inside, closing] at h
  | _ => exact Iff.rfl

theorem accepted_grows {s : Recorded} {site : Site} (dock : Dock) (requests : List Request)
    (h : Accepted s site) : Accepted ⟨dock, s.accepted ++ requests⟩ site := by
  obtain ⟨request, hmem, hbears⟩ := h
  exact ⟨request, List.mem_append_left _ hmem, hbears⟩

theorem backed_grows {s : Recorded} (dock : Dock) (requests : List Request) {g : GlobalState}
    (h : Backed s g) : Backed ⟨dock, s.accepted ++ requests⟩ g := by
  cases g with
  | UNDOCKED | DOCKED => trivial
  | DOCKED_IDSUCC | DOCKED_IDFAIL => exact accepted_grows dock requests h

theorem backed_outside {s : Recorded} {g : GlobalState} (hsucc : g ≠ .DOCKED_IDSUCC)
    (hfail : g = .DOCKED_IDFAIL → Accepted s .failure) : Backed s g := by
  cases g with
  | UNDOCKED | DOCKED => trivial
  | DOCKED_IDSUCC => exact absurd rfl hsucc
  | DOCKED_IDFAIL => exact hfail rfl

section Steps

variable {s : Recorded} {requests : List Request}

theorem ioctlResult_vouched (site : Site) (i : ℕ) (ok : Bool)
    (hpc : s.dock.pc = .ioctlResult site i ok) (hl : lastTryFailed s.dock.pc = false)
    (hv : Vouched s) :
    Vouched ⟨s.dock.ioctlResult site i ok, s.accepted ++ requests⟩ := by
  rw [Vouched, hpc] at hv
  obtain ⟨hbears, hacc⟩ := hv
  cases ok with
  | true =>
    have ha := accepted_grows ((s.dock.write .DOCKED s.dock.pc).leaveIoctl site) requests (hacc rfl)
    cases site with
    | enableUart => exact trivial
    | verdict | failure => exact ha
  | false =>
    by_cases hi : i+1 < MAX_TRY_IOCTL
    · have hs : s.dock.ioctlResult site i false = s.dock.write .UNDOCKED (.ioctl site (i+1)) := by
        simp [Dock.ioctlResult, hi]
      rw [hs]
      exact hbears
    · have hs : s.dock.ioctlResult site i false =
          (s.dock.write .UNDOCKED s.dock.pc).leaveIoctl site := by
        simp [Dock.ioctlResult, hi]
      rw [hs]
      cases site with
      | enableUart => exact trivial
      | verdict | failure =>
        rw [hpc] at hl
        simp only [lastTryFailed, decide_eq_false_iff_not] at hl
        omega

theorem loopGuard_vouched (hpc : s.dock.pc = .loopGuard) (hv : Vouched s) :
    Vouched ⟨s.dock.loopGuard, s.accepted ++ requests⟩ := by
  rw [Vouched, hpc] at hv
  simp only [Dock.loopGuard]
  split_ifs with hz hg
  · exact backed_grows _ _ hv
  · intro hfail
    exact absurd (hg.symm.trans hfail) (by decide)
  · exact backed_grows _ _ hv

theorem checkSuccess_vouched (hpc : s.dock.pc = .checkSuccess) (hv : Vouched s) :
    Vouched ⟨s.dock.checkSuccess, s.accepted ++ requests⟩ := by
  rw [Vouched, hpc] at hv
  simp only [Dock.checkSuccess]
  split_ifs with hg
  · exact identity_bears s.dock
  · exact backed_outside hg (fun hfail => accepted_grows _ _ (hv hfail))

theorem checkDocked_vouched (hpc : s.dock.pc = .checkDocked) (hv : Vouched s) :
    Vouched ⟨s.dock.checkDocked, s.accepted ++ requests⟩ := by
  rw [Vouched, hpc] at hv
  simp only [Dock.checkDocked]
  split_ifs
  · exact (rfl : Bears .failure ⟨0, [], []⟩)
  · exact backed_grows _ _ hv
  · exact backed_grows _ _ hv

theorem inside_vouched {dock : Dock} (hp : inside s.dock.pc = true) (hi : InsideStep s.dock dock)
    (hv : Vouched s) : Vouched ⟨dock, s.accepted ++ requests⟩ := by
  rw [vouched_inside hp] at hv
  apply (vouched_inside hi.inside).mpr
  intro hfail
  rcases hi.globalState with hsame | hsucc
  · exact accepted_grows _ _ (hv (hsame ▸ hfail))
  · exact absurd (hsucc.symm.trans hfail) (by decide)

end Steps

theorem recordStep_loop {s s' : Recorded} {input : Input} (h : recordStep s input = some s') :
    ∃ dock, LoopCase s.dock input dock ∧
      s' = ⟨dock, s.accepted ++ acceptedBy s.dock input⟩ := by
  obtain ⟨dock, hdock, rfl⟩ := Option.map_eq_some_iff.mp h
  exact ⟨dock, protStep_loop hdock, rfl⟩

theorem recordStep_vouched {s s' : Recorded} {input : Input} (h : recordStep s input = some s')
    (hl : lastTryFailed s.dock.pc = false) (hv : Vouched s) : Vouched s' := by
  obtain ⟨dock, hloop, rfl⟩ := recordStep_loop h
  cases hloop with
  | semWait ok hpc =>
    rw [Vouched, hpc] at hv
    simp only [Dock.semWait]
    split_ifs
    · exact fun _ => backed_grows _ _ hv
    · exact backed_grows _ _ hv
  | checkUndocked hpc =>
    rw [Vouched, hpc] at hv
    simp only [Dock.checkUndocked]
    split_ifs with hg
    · simp only [Vouched, Dock.check, hg]
      trivial
    · exact fun hhid => backed_grows _ _ (hv hhid)
  | checkProtocol hpc =>
    rw [Vouched, hpc] at hv
    simp only [Dock.checkProtocol]
    split_ifs with hu
    · trivial
    · have hhid : s.dock.globalProtocol = .HID := by
        cases hp : s.dock.globalProtocol with
        | UART => exact absurd hp hu
        | HID => rfl
      exact backed_grows _ _ (hv hhid)
  | ioctl site i ok hpc =>
    rw [Vouched, hpc] at hv
    constructor
    · exact hv
    · intro hok
      have hacc : acceptedBy s.dock (.outcome ok) = [s.dock.request] := by
        simp [acceptedBy, hpc, hok]
      rw [hacc]
      exact ⟨s.dock.request, List.mem_append_right _ List.mem_cons_self, hv⟩
  | ioctlResult site i ok hpc => exact ioctlResult_vouched site i ok hpc hl hv
  | loopGuard hpc => exact loopGuard_vouched hpc hv
  | inside _ _ hp hi => exact inside_vouched hp hi hv
  | checkSuccess hpc => exact checkSuccess_vouched hpc hv
  | verdictSet hpc =>
    rw [Vouched, hpc] at hv
    exact accepted_grows _ _ hv
  | checkDocked hpc => exact checkDocked_vouched hpc hv
  | failSet hpc =>
    rw [Vouched, hpc] at hv
    exact accepted_grows _ _ hv
  | release hpc =>
    rw [Vouched, hpc] at hv
    exact backed_grows _ _ hv

/-! ## Sessions -/

variable {s t : Recorded} {inputs : List Input}

theorem unexhausted_backed (hpc : s.dock.pc = .checkUndocked) (hend : t.dock.pc = .semWait)
    (hr : Run recordStep InSession s inputs t) (he : ¬ Exhausted s inputs) (hl : ¬ Leftover s) :
    Backed t t.dock.globalState := by
  have hnever : ∀ earlier later u, inputs = earlier ++ later →
      Run recordStep InSession s earlier u → lastTryFailed u.dock.pc = false := by
    intro earlier later u hks hu
    exact Bool.eq_false_iff.mpr (fun hlast => he ⟨earlier, later, u, hks, hu, hlast⟩)
  have hstart : Vouched s := by
    rw [Vouched, hpc]
    exact fun hhid => not_not.mp (fun hb => hl ⟨hhid, hb⟩)
  have hvouched := (hr.visits hnever).invariant Vouched
    (fun _ _ _ hv hok h => recordStep_vouched h hok.2 hv) hstart
  rw [Vouched, hend] at hvouched
  exact hvouched

/-- The states in which a lost verdict leaves the protocol thread. -/
def Settled (s : Recorded) : Prop :=
  match s.dock.pc with
  | .verdictSet | .failSet => True
  | .checkDocked | .loopGuard | .release | .semWait =>
    s.dock.globalState = .DOCKED_IDSUCC ∨ s.dock.globalState = .DOCKED_IDFAIL
  | _ => False

theorem settled_not_docked {g : GlobalState} (h : g = .DOCKED_IDSUCC ∨ g = .DOCKED_IDFAIL) :
    g ≠ .DOCKED ∧ g ≠ .UNDOCKED := by
  rcases h with rfl | rfl <;> decide

theorem settled_outside {s : Recorded} (h : Settled s) : inside s.dock.pc = false := by
  simp only [Settled] at h
  cases hpc : s.dock.pc <;> rw [hpc] at h
  all_goals first | exact h.elim | rfl

theorem recordStep_settled {s s' : Recorded} {input : Input} (h : recordStep s input = some s')
    (hs : s.dock.pc ≠ .semWait) (hset : Settled s) : Settled s' := by
  obtain ⟨dock, hloop, rfl⟩ := recordStep_loop h
  cases hloop with
  | semWait ok hpc => exact absurd hpc hs
  | loopGuard hpc =>
    rw [Settled, hpc] at hset
    simp only [Dock.loopGuard]
    split_ifs with hz hg
    · exact hset
    · exact absurd hg (settled_not_docked hset).1
    · exact hset
  | inside _ _ hp hi => exact absurd ((settled_outside hset).symm.trans hp) (by decide)
  | checkDocked hpc =>
    rw [Settled, hpc] at hset
    simp only [Dock.checkDocked]
    rw [if_neg (settled_not_docked hset).1]
    exact hset
  | verdictSet hpc => exact .inl rfl
  | failSet hpc => exact .inr rfl
  | release hpc =>
    rw [Settled, hpc] at hset
    exact hset
  | checkUndocked hpc | checkProtocol hpc | checkSuccess hpc =>
    rw [Settled, hpc] at hset
    exact hset.elim
  | ioctl site i ok hpc | ioctlResult site i ok hpc =>
    rw [Settled, hpc] at hset
    exact hset.elim

/-- After the last failed try the call returns and the verdict state is written
all the same. -/
theorem ioctlResult_settled (s : Dock) (accepted : List Request) (site : Site) (i : ℕ) (ok : Bool)
    (hl : lastTryFailed (.ioctlResult site i ok) = true) :
    Settled ⟨s.ioctlResult site i ok, accepted⟩ := by
  cases ok with
  | true => cases site <;> cases hl
  | false =>
    have hi : ¬ i+1 < MAX_TRY_IOCTL := by
      cases site with
      | enableUart => cases hl
      | verdict | failure => exact Nat.not_lt.mpr (of_decide_eq_true hl)
    have hs : s.ioctlResult site i false = (s.write .UNDOCKED s.pc).leaveIoctl site := by
      simp [Dock.ioctlResult, hi]
    rw [hs]
    cases site with
    | enableUart => cases hl
    | verdict | failure => trivial

theorem lastTryFailed_outside {pc : Pc} (h : lastTryFailed pc = true) : inside pc = false := by
  cases pc with
  | ioctlResult site i ok => simp [inside, closing]
  | _ => cases h

theorem lastTryFailed_settled {s s' : Recorded} {input : Input}
    (h : recordStep s input = some s') (hl : lastTryFailed s.dock.pc = true) : Settled s' := by
  obtain ⟨dock, hloop, rfl⟩ := recordStep_loop h
  cases hloop with
  | ioctlResult site i ok hpc =>
    rw [hpc] at hl
    exact ioctlResult_settled s.dock _ site i ok hl
  | inside _ _ hp hi => exact absurd ((lastTryFailed_outside hl).symm.trans hp) (by decide)
  | semWait ok hpc | checkUndocked hpc | checkProtocol hpc | loopGuard hpc | checkSuccess hpc =>
    rw [hpc] at hl
    cases hl
  | verdictSet hpc | checkDocked hpc | failSet hpc | release hpc | ioctl site i ok hpc =>
    rw [hpc] at hl
    cases hl

theorem exhausted_settled (hend : t.dock.pc = .semWait)
    (hr : Run recordStep InSession s inputs t) (he : Exhausted s inputs) :
    t.dock.globalState ≠ .UNDOCKED := by
  obtain ⟨earlier, later, u, rfl, hu, hlast⟩ := he
  obtain ⟨u', hu', hlater⟩ := hr.split
  have hsame : u' = u := by
    have h := (run_final hu').symm.trans (run_final hu)
    exact Option.some.inj h
  rw [hsame] at hlater
  cases hlater with
  | nil =>
    rw [hend] at hlast
    cases hlast
  | cons hstep _ hrest =>
    have hset := hrest.invariant Settled (fun _ _ _ hs hok h => recordStep_settled h hok hs)
      (lastTryFailed_settled hstep hlast)
    rw [Settled, hend] at hset
    exact (settled_not_docked hset).2

structure Skipped (s₀ s : Recorded) : Prop where
  place : s.dock.pc ∈ [.checkUndocked, .checkProtocol, .loopGuard, .release, .semWait]
  globalProtocol : s.dock.globalProtocol = .HID
  globalState : s.dock.globalState = s₀.dock.globalState
  accepted : s.accepted = s₀.accepted

theorem leftover_verdict {s : Recorded} (h : Leftover s) :
    s.dock.globalState = .DOCKED_IDSUCC ∨ s.dock.globalState = .DOCKED_IDFAIL := by
  have hb := h.2
  cases hg : s.dock.globalState with
  | UNDOCKED | DOCKED =>
    rw [hg] at hb
    exact absurd trivial hb
  | DOCKED_IDSUCC => exact .inl rfl
  | DOCKED_IDFAIL => exact .inr rfl

theorem acceptedBy_other {s : Dock} (input : Input) (h : ∀ site i, s.pc ≠ .ioctl site i) :
    acceptedBy s input = [] := by
  simp only [acceptedBy]
  split
  · exact absurd ‹_› (h _ _)
  · rfl

theorem skipped_outside {s₀ s : Recorded} (hk : Skipped s₀ s) : inside s.dock.pc = false := by
  have hplace := hk.place
  simp only [List.mem_cons, List.not_mem_nil, or_false] at hplace
  rcases hplace with hpc | hpc | hpc | hpc | hpc <;> rw [hpc] <;> rfl

theorem recordStep_skipped {s₀ s s' : Recorded} {input : Input} (hl : Leftover s₀)
    (h : recordStep s input = some s') (hs : s.dock.pc ≠ .semWait) (hk : Skipped s₀ s) :
    Skipped s₀ s' := by
  obtain ⟨dock, hloop, rfl⟩ := recordStep_loop h
  have hplace := hk.place
  have hg := settled_not_docked (leftover_verdict hl)
  rw [← hk.globalState] at hg
  have hacc : acceptedBy s.dock input = [] := by
    apply acceptedBy_other
    intro site i hpc
    rw [hpc] at hplace
    simp at hplace
  rw [hacc, List.append_nil]
  cases hloop with
  | semWait ok hpc => exact absurd hpc hs
  | checkUndocked hpc =>
    rw [Dock.checkUndocked, if_neg hg.2]
    exact ⟨by simp [Dock.check], hk.globalProtocol, hk.globalState, hk.accepted⟩
  | checkProtocol hpc =>
    have hu : s.dock.globalProtocol ≠ .UART := by
      rw [hk.globalProtocol]
      decide
    rw [Dock.checkProtocol, if_neg hu]
    exact ⟨by simp [Dock.goto], hk.globalProtocol, hk.globalState, hk.accepted⟩
  | loopGuard hpc =>
    simp only [Dock.loopGuard, if_neg hg.1]
    split_ifs
    · exact ⟨by simp [Dock.goto], hk.globalProtocol, hk.globalState, hk.accepted⟩
    · exact ⟨by simp [Dock.check], hk.globalProtocol, hk.globalState, hk.accepted⟩
  | release hpc =>
    exact ⟨by simp [Dock.goto], hk.globalProtocol, hk.globalState, hk.accepted⟩
  | inside _ _ hp hi => exact absurd ((skipped_outside hk).symm.trans hp) (by decide)
  | ioctl site i ok hpc | ioctlResult site i ok hpc =>
    rw [hpc] at hplace
    simp at hplace
  | checkSuccess hpc | verdictSet hpc | checkDocked hpc | failSet hpc =>
    rw [hpc] at hplace
    simp at hplace

theorem leftover_unbacked (hpc : s.dock.pc = .checkUndocked)
    (hr : Run recordStep InSession s inputs t) (hl : Leftover s) :
    ¬ Backed t t.dock.globalState := by
  have hk := hr.invariant (Skipped s) (fun _ _ _ hk hok h => recordStep_skipped hl h hok hk)
    ⟨by simp [hpc], hl.1, rfl, rfl⟩
  have hb := hl.2
  rw [hk.globalState]
  cases hg : s.dock.globalState with
  | UNDOCKED | DOCKED =>
    rw [hg] at hb
    exact absurd trivial hb
  | DOCKED_IDSUCC | DOCKED_IDFAIL =>
    rw [hg] at hb
    simp only [Backed, Accepted, hk.accepted] at hb ⊢
    exact hb

/-- A session leaves a verdict state that an accepted request stands behind, or
`UNDOCKED`, exactly when no verdict fails all its tries and the session does
not start from an unbacked verdict state that it takes over. -/
theorem session_faithful_iff (hpc : s.dock.pc = .checkUndocked) (hend : t.dock.pc = .semWait)
    (hr : Run recordStep InSession s inputs t) :
    Faithful s t inputs ↔ ¬ Exhausted s inputs ∧ ¬ Leftover s := by
  constructor
  · intro hf
    constructor
    · exact fun he => exhausted_settled hend hr he (hf.undocked he)
    · exact fun hl => leftover_unbacked hpc hr hl hf.backed
  · intro hc
    constructor
    · exact unexhausted_backed hpc hend hr hc.1 hc.2
    · exact fun he => absurd he hc.1

/-! ## Runs of the two threads -/

def recordBoth (s : Recorded) : Label → Option Recorded
  | .protocol input => recordStep s input
  | .uevent input => (ueventStep s.dock input).map (fun dock => ⟨dock, s.accepted⟩)

def atOpening (pc : Pc) : Bool := pc = .checkUndocked || pc = .checkProtocol

/-- A verdict state is backed wherever the protocol thread has not yet looked at it. -/
structure Sound (s : Recorded) : Prop where
  vouched : Vouched s
  opening : atOpening s.dock.pc = true → Backed s s.dock.globalState

theorem ueventStep_request {s s' : Dock} {input : UeventInput} (h : ueventStep s input = some s') :
    s'.request = s.request := by
  revert h
  simp only [ueventStep]
  split <;> intro h <;> try obtain rfl := Option.some.inj h
  case h_1 _ phase reading _ => cases reading <;> rfl
  case h_2 => rfl
  case h_3 _ phase _ =>
    obtain ⟨uevent, sem, hpost⟩ := postStart_eq s phase
    rw [hpost]
  case h_4 => rfl
  case h_5 => cases h

theorem ueventStep_sound {s : Recorded} {dock : Dock} {input : UeventInput}
    (h : ueventStep s.dock input = some dock) (hs : Sound s) : Sound ⟨dock, s.accepted⟩ := by
  obtain ⟨hframe, hmove⟩ := ueventStep_moves h
  have hrequest := ueventStep_request h
  have hkept : ∀ {P : GlobalState → Prop}, P .DOCKED → P .UNDOCKED → P s.dock.globalState →
      P dock.globalState := by
    intro P hd hu hold
    cases hmove with
    | other hg => exact hg ▸ hold
    | docked hg => exact hg ▸ hd
    | undocked hg => exact hg ▸ hu
  have hbacked : Backed s s.dock.globalState → Backed s dock.globalState :=
    hkept trivial trivial
  have hfail : (s.dock.globalState = .DOCKED_IDFAIL → Accepted s .failure) →
      dock.globalState = .DOCKED_IDFAIL → Accepted s .failure :=
    hkept (P := fun g => g = .DOCKED_IDFAIL → Accepted s .failure)
      (fun h => nomatch h) (fun h => nomatch h)
  constructor
  case vouched =>
    have hv := hs.vouched
    have ho := hs.opening
    simp only [Vouched] at hv ⊢
    rw [hframe.pc]
    cases hpc : s.dock.pc with
    | checkUndocked => exact fun _ => hbacked (ho (by rw [hpc]; rfl))
    | checkProtocol => exact fun _ => hbacked (ho (by rw [hpc]; rfl))
    | ioctl site i =>
      rw [hpc] at hv
      exact hrequest ▸ hv
    | ioctlResult site i ok =>
      rw [hpc] at hv
      exact hrequest ▸ hv
    | verdictSet | failSet =>
      rw [hpc] at hv
      exact hv
    | loopGuard | checkDocked | release | semWait | stopped =>
      rw [hpc] at hv
      exact hbacked hv
    | _ =>
      rw [hpc] at hv
      exact hfail hv
  case opening =>
    intro hpc
    rw [hframe.pc] at hpc
    exact hbacked (hs.opening hpc)

theorem opening_outside {pc : Pc} (h : inside pc = true) : atOpening pc = false := by
  cases pc with
  | checkUndocked | checkProtocol => cases h
  | _ => rfl

theorem recordStep_opening {s s' : Recorded} {input : Input} (h : recordStep s input = some s')
    (hs : Sound s) (hpc' : atOpening s'.dock.pc = true) : Backed s' s'.dock.globalState := by
  obtain ⟨dock, hloop, rfl⟩ := recordStep_loop h
  have hv := hs.vouched
  cases hloop with
  | semWait ok hpc =>
    rw [Vouched, hpc] at hv
    cases ok with
    | true => exact backed_grows _ _ hv
    | false => cases hpc'
  | checkUndocked hpc =>
    have hb := hs.opening (by rw [hpc]; rfl)
    simp only [Dock.checkUndocked] at hpc' ⊢
    split_ifs at hpc' ⊢ <;> exact backed_grows _ _ hb
  | checkProtocol hpc =>
    simp only [Dock.checkProtocol] at hpc'
    split_ifs at hpc' <;> cases hpc'
  | ioctlResult site i ok hpc =>
    simp only [Dock.ioctlResult] at hpc'
    split_ifs at hpc' <;> cases site <;> cases hpc'
  | loopGuard hpc =>
    simp only [Dock.loopGuard] at hpc'
    split_ifs at hpc' <;> cases hpc'
  | inside _ _ hp hi => exact absurd ((opening_outside hi.inside).symm.trans hpc') (by decide)
  | checkSuccess hpc =>
    simp only [Dock.checkSuccess] at hpc'
    split_ifs at hpc' <;> cases hpc'
  | checkDocked hpc =>
    simp only [Dock.checkDocked] at hpc'
    split_ifs at hpc' <;> cases hpc'
  | ioctl | verdictSet | failSet | release => cases hpc'

theorem recordBoth_sound {s s' : Recorded} {l : Label} (h : recordBoth s l = some s')
    (hl : lastTryFailed s.dock.pc = false) (hs : Sound s) : Sound s' := by
  cases l with
  | protocol input =>
    constructor
    · exact recordStep_vouched h hl hs.vouched
    · exact recordStep_opening h hs
  | uevent input =>
    obtain ⟨dock, hdock, rfl⟩ := Option.map_eq_some_iff.mp h
    exact ueventStep_sound hdock hs

/-- While no verdict fails all its tries, no session of the daemon finds a
verdict state that nothing stands behind, whatever the uevent thread does. -/
theorem start_unleftover {s : Recorded} {ls : List Label} (statusFuse fsNo romSn : Memory Byte)
    (hr : Run recordBoth (fun s _ => lastTryFailed s.dock.pc = false)
      ⟨.start statusFuse fsNo romSn, []⟩ ls s) (hpc : s.dock.pc = .checkUndocked) :
    ¬ Leftover s := by
  have hstart : Sound ⟨.start statusFuse fsNo romSn, []⟩ :=
    ⟨trivial, fun h => nomatch h⟩
  have hs := hr.invariant Sound (fun _ _ _ hs hok h => recordBoth_sound h hok hs) hstart
  exact fun hl => hl.2 (hs.opening (by rw [hpc]; rfl))

instance (s : Recorded) (input : Input) : Decidable (InSession s input) :=
  inferInstanceAs (Decidable (s.dock.pc ≠ .semWait))

def attached : Recorded where
  dock := { Dock.blank with pc := .checkUndocked, globalState := .DOCKED, uevent := .idle }
  accepted := []

def authenticated : List Input :=
  [.silent, .silent, .outcome true, .silent, .silent, .silent, .outcome true, .outcome true,
    .silent, .silent, .response (some (fun _ => 0)), .silent, .response (some (fun _ => 0)),
    .silent, .response (some (fun _ => 0)), .silent, .silent, .silent]

def acceptedSession : List Input :=
  authenticated ++ [.outcome true, .silent, .silent, .silent, .silent, .silent]

def lostSession : List Input :=
  authenticated ++ (List.replicate 5 [.outcome false, .silent]).flatten ++
    [.silent, .silent, .silent, .silent]

theorem acceptedSession_ends :
    (final recordStep InSession attached acceptedSession).isSome = true := by
  decide +kernel

theorem lostSession_ends : (final recordStep InSession attached lostSession).isSome = true := by
  decide +kernel

theorem session_faithful_accepted :
    Faithful attached ((final recordStep InSession attached acceptedSession).get
      acceptedSession_ends) acceptedSession ↔
    ¬ Exhausted attached acceptedSession ∧ ¬ Leftover attached :=
  session_faithful_iff rfl (by decide +kernel)
    (final_run (Option.some_get acceptedSession_ends).symm)

/-- All five tries to send the success fail, and `DOCKED_IDSUCC` is left behind
with nothing accepted but the request that enables the UART. -/
theorem lost_verdict_kept : ¬ Faithful attached
    ((final recordStep InSession attached lostSession).get lostSession_ends) lostSession := by
  intro h
  have hg : ((final recordStep InSession attached lostSession).get
      lostSession_ends).dock.globalState = .DOCKED_IDSUCC := by decide +kernel
  have hcmds : ((final recordStep InSession attached lostSession).get
      lostSession_ends).accepted.map Request.cmd = [CPCAP_WHISPER_ENABLE_UART] := by
    decide +kernel
  have hb := h.backed
  rw [hg] at hb
  obtain ⟨request, hmem, hbears⟩ := hb
  have hcmd := List.mem_map_of_mem (f := Request.cmd) hmem
  rw [hcmds, List.mem_singleton] at hcmd
  rw [Bears, hcmd] at hbears
  revert hbears
  decide

end Wingray.WhisperVerdict
