import Wingray.RefBaseLifetime

/-!
# The hooks of an object

When `onFirstRef` and `onLastStrongRef` are called. The second one is also called by a
promotion that has found an object without strong references, if another thread takes
the first one before it: with the regular lifetime nothing is left to be undone then.
-/

set_option autoImplicit false

namespace Wingray.RefBase
open Parties GuardedRun

variable {ι : Type} [Fintype ι] [DecidableEq ι] {M : Modes} {k : Known} {s u : State ι} {t : ι}
  {ls ks : List (Label ι)} {mode : BitVec 32}

/-- About to call `onFirstRef`. -/
@[simp] def Point.starting : Point → ℤ
  | .subtract | .onFirstRef => 1
  | _ => 0

def Thread.starting (th : Thread) : ℤ := th.point.starting

def Point.forced : Point → Bool
  | .incWeak (.strong true) | .incStrong true => true
  | _ => false

/-- The calls of `onFirstRef`, made and under way. -/
def started (s : State ι) : ℤ := s.shared.firstRefs+total Thread.starting s.threads

structure FirstOnce (s : State ι) : Prop where
  once : started s ≤ 1
  unowned : s.shared.mStrong = initialStrongValue → started s = 0
  unforced : ∀ t, (s.threads t).point.forced = false

/-- A strong count that has left its initial value does not come back to it. -/
theorem step_owned {s' : State ι} {l : Label ι} (hl : M.Lawful) (h : Inv M ⟨True, True⟩ s)
    (hproper : Proper M s l) (hlate : ¬ Late s l) (hs : step M s l = some s')
    (howned : s.shared.mStrong ≠ initialStrongValue) :
    s'.shared.mStrong ≠ initialStrongValue := by
  have howned' : Inv M ⟨True, False⟩ s :=
    ⟨{ h.ledger with first := howned }, h.sound, h.quiet⟩
  exact (step_inv hl howned' hproper hlate hs).ledger.first

theorem unforced {force : Bool} (hf : (Point.incStrong force).forced = false) : force = false := by
  cases force with
  | false => rfl
  | true => cases hf

/-- What a step does to the calls of `onFirstRef`. -/
theorem advance_started (M : Modes) (agrees : Bool) (sh : Shared) {th : Thread}
    (hforce : th.point.forced = false) :
    ((advance M agrees sh th).1.firstRefs : ℤ)+(advance M agrees sh th).2.starting =
        sh.firstRefs+th.starting ∨
      sh.mStrong = initialStrongValue ∧
        (advance M agrees sh th).1.mStrong = int32 (initialStrongValue+1) ∧
        ((advance M agrees sh th).1.firstRefs : ℤ)+(advance M agrees sh th).2.starting =
          sh.firstRefs+th.starting+1 := by
  cases hp : th.point with
  | incWeak aim =>
    left
    cases aim <;> simp [advance, Thread.starting, Thread.gainWeak, hp]
  | incStrong force =>
    rw [hp] at hforce
    rw [unforced hforce] at hp
    simp only [advance, hp]
    split_ifs with hfirst hzero
    · right
      simp [Thread.starting, hp, hfirst]
    · exact absurd hzero.1 (by decide)
    · left
      simp [Thread.starting, Thread.gainStrong, hp]
  | subtract | onFirstRef | onIncStrongAttempted | incWeakAttempt =>
    left
    cases agrees <;> simp [advance, Thread.starting, Thread.gainStrong, hp] <;> split_ifs <;> rfl
  | destroy releases | destroyWeak releases =>
    left
    cases releases <;> simp only [advance, hp, destroyed] <;> split_ifs <;>
      simp [Thread.starting, hp]
  | promote =>
    left
    simp only [advance, hp, promoteAt]
    split_ifs <;> simp [Thread.starting, hp]
  | promoteFirst curCount | revive =>
    left
    simp only [advance, hp, promoted]
    split_ifs <;> simp [Thread.starting, hp]
  | idle => exact .inl (by simp only [advance, hp])
  | dropUnneeded => exact .inl (by simp [advance, Thread.starting, hp])
  | _ =>
    left
    simp only [advance, hp]
    split_ifs <;> simp [Thread.starting, Thread.gainStrong, Thread.gainWeak, hp]

theorem advance_unforced {agrees : Bool} {sh : Shared} {th : Thread}
    (hforce : th.point.forced = false) : (advance M agrees sh th).2.point.forced = false := by
  cases hp : th.point with
  | incWeak aim =>
    rw [hp] at hforce
    cases aim with
    | strong force =>
      cases force with
      | false => simp [advance, hp, Point.forced]
      | true => cases hforce
    | _ => simp [advance, hp, Point.forced, Thread.gainWeak]
  | destroy releases | destroyWeak releases =>
    cases releases <;> simp only [advance, hp, destroyed] <;> split_ifs <;> rfl
  | promote =>
    simp only [advance, hp, promoteAt]
    split_ifs <;> rfl
  | promoteFirst curCount | revive =>
    simp only [advance, hp, promoted]
    split_ifs <;> rfl
  | onIncStrongAttempted | incWeakAttempt =>
    simp only [advance, hp]
    split_ifs <;> rfl
  | idle | dropUnneeded | subtract | onFirstRef =>
    simp only [advance, hp]
    simp [Point.forced, Thread.gainStrong, hp]
  | _ =>
    simp only [advance, hp]
    split_ifs <;> rfl

omit [DecidableEq ι] in
theorem FirstOnce.points {sh : Shared} {threads : ι → Thread} (h : FirstOnce s)
    (hfirst : sh.firstRefs = s.shared.firstRefs) (hstrong : sh.mStrong = s.shared.mStrong)
    (hpoints : ∀ v, (threads v).point = (s.threads v).point) : FirstOnce ⟨sh, threads⟩ := by
  have hsame : started ⟨sh, threads⟩ = started s := by
    have hall : total Thread.starting threads = total Thread.starting s.threads :=
      Finset.sum_congr rfl (fun v _ => by rw [Thread.starting, hpoints v, Thread.starting])
    rw [started, started, hfirst, hall]
  refine ⟨?_, ?_, fun v => ?_⟩
  · rw [hsame]
    exact h.once
  · rw [hsame, hstrong]
    exact h.unowned
  · rw [hpoints v]
    exact h.unforced v

theorem first_step {s' : State ι} {l : Label ι} (hl : M.Lawful) (h : Inv M ⟨True, True⟩ s)
    (hf : FirstOnce s) (hproper : Proper M s l) (hlate : ¬ Late s l) (hforce : Unforced l)
    (hs : step M s l = some s') : FirstOnce s' := by
  have howned := step_owned hl h hproper hlate hs
  cases l with
  | call t op =>
    simp only [step] at hs
    split at hs
    swap
    · cases hs
    rename_i hp
    cases hs
    have hpoint : (op.start (s.threads t)).point.forced = false ∧
        (op.start (s.threads t)).starting = 0 := by
      cases op with
      | forceIncStrong => exact hforce.elim
      | _ => exact ⟨rfl, rfl⟩
    have hsame : started ⟨s.shared, Function.update s.threads t (op.start (s.threads t))⟩ =
        started s := by
      rw [started, started, total_update, hpoint.2, Thread.starting, hp]
      simp
    refine ⟨hsame ▸ hf.once, fun hfirst => hsame ▸ hf.unowned hfirst, fun v => ?_⟩
    by_cases hv : v = t
    · simp only [hv, Function.update_self]
      exact hpoint.1
    · simp only [Function.update_of_ne hv]
      exact hf.unforced v
  | run t agrees =>
    simp only [step] at hs
    split at hs
    · cases hs
    · rename_i p hne
      rw [h.touch_eq rfl hne] at hs
      cases hs
      have hinit : initialStrongValue = 268435456 := by rfl
      have hthis := hf.unforced t
      have hafter : started (moved M agrees s t) = started s ∨
          s.shared.mStrong = initialStrongValue ∧
            (moved M agrees s t).shared.mStrong ≠ initialStrongValue ∧
            started (moved M agrees s t) = started s+1 := by
        rcases advance_started M agrees s.shared hthis with
          hsame | ⟨hfirst, hnext, hmore⟩
        · left
          simp only [started, moved, total_update]
          omega
        · right
          refine ⟨hfirst, ?_, ?_⟩
          · simp only [moved, hnext]
            rw [int32_eq] <;> omega
          · simp only [started, moved, total_update]
            omega
      refine ⟨?_, ?_, fun v => ?_⟩
      · rcases hafter with hsame | ⟨hfirst, -, hmore⟩
        · exact hsame ▸ hf.once
        · have hzero := hf.unowned hfirst
          exact hmore ▸ (by omega)
      · intro hstill
        rcases hafter with hsame | ⟨-, hnext, -⟩
        · by_cases hfirst : s.shared.mStrong = initialStrongValue
          · exact hsame ▸ hf.unowned hfirst
          · exact absurd hstill (howned hfirst)
        · exact absurd hstill hnext
      · by_cases hv : v = t
        · simp only [hv, Function.update_self]
          exact advance_unforced hthis
        · simp only [Function.update_of_ne hv]
          exact hf.unforced v
  | giveStrong t u | giveWeak t u =>
    cases hs
    refine hf.points rfl rfl (pass_point ?_ ?_) <;> exact fun _ => rfl

/-- In every run with exact counts and no `forceIncStrong`, `onFirstRef` is called once at
most, and not as long as no strong reference was taken. -/
theorem first_once (hl : M.Lawful)
    (hr : Run (step M) (fun s l => Proper M s l ∧ ¬ Late s l ∧ Unforced l) (constructed mode)
      ls s) :
    s.shared.firstRefs ≤ 1 ∧
      (s.shared.mStrong = initialStrongValue → s.shared.firstRefs = 0) := by
  have hstart : FirstOnce (constructed mode : State ι) := by
    have hzero : started (constructed mode : State ι) = 0 := by
      have hnone : total Thread.starting (constructed mode : State ι).threads = 0 :=
        total_zero (fun _ => rfl)
      rw [started, hnone]
      rfl
    exact ⟨by omega, fun _ => hzero, fun _ => rfl⟩
  have hall : Inv M ⟨True, True⟩ s ∧ FirstOnce s := by
    refine hr.invariant (fun s => Inv M ⟨True, True⟩ s ∧ FirstOnce s) ?_
      ⟨constructed_inv mode, hstart⟩
    rintro s l s' ⟨hi, hf⟩ ⟨hproper, hlate, hforce⟩ hs
    exact ⟨step_inv hl hi hproper hlate hs, first_step hl hi hf hproper hlate hforce hs⟩
  have hnonneg : 0 ≤ total Thread.starting s.threads := by
    refine total_nonneg (fun th => ?_)
    unfold Thread.starting Point.starting
    split <;> decide
  obtain ⟨-, honce, hunowned, -⟩ := hall
  rw [started] at honce hunowned
  exact ⟨by omega, fun hfirst => by
    have hzero := hunowned hfirst
    omega⟩

theorem first_once_lent : ∃ s : State Bool, 0 < (s.threads true).strongs ∧
    s.shared.firstRefs ≤ 1 := by
  obtain ⟨s, hs, hpos⟩ := lent_run
  exact ⟨s, hpos, (first_once modes_lawful hs).1⟩

/-- A promotion calls `onLastStrongRef`. -/
def Unneeded (s : State ι) : Label ι → Prop
  | .run t _ => (s.threads t).point = .dropUnneeded
  | _ => False

instance (s : State ι) : ∀ l, Decidable (Unneeded s l)
  | .run _ _ => inferInstanceAs (Decidable (_ = _))
  | .call _ _ | .giveStrong _ _ | .giveWeak _ _ => inferInstanceAs (Decidable False)

/-- `onLastStrongRef` was not called before the last strong reference was released. -/
def LastCalled (s : State ι) : Prop := 0 < s.shared.lastStrongRefs → s.shared.mStrong = 0

theorem advance_lastStrongRefs {agrees : Bool} {sh : Shared} {th : Thread}
    (hlast : th.point ≠ .onLastStrongRef) (hdrop : th.point ≠ .dropUnneeded) :
    (advance M agrees sh th).1.lastStrongRefs = sh.lastStrongRefs := by
  fun_cases advance M agrees sh th <;> first | rfl | contradiction

theorem step_lastCalled {s' : State ι} {l : Label ι} (h : Inv M k s) (hreg : s.shared.regular M)
    (hcalled : LastCalled s) (hs : step M s l = some s') (hnot : ¬ Unneeded s l) :
    LastCalled s' := by
  intro hpos
  by_cases hbefore : 0 < s.shared.lastStrongRefs
  · exact step_zero h hreg (hcalled hbefore) hs
  cases l with
  | call t op =>
    simp only [step] at hs
    split at hs <;> cases hs
    exact absurd hpos hbefore
  | giveStrong t u | giveWeak t u =>
    cases hs
    exact absurd hpos hbefore
  | run t agrees =>
    have hstep := hs
    simp only [step] at hs
    split at hs
    · cases hs
    · rename_i p hne
      rw [h.touch_eq rfl hne] at hs
      cases hs
      by_cases hlast : (s.threads t).point = .onLastStrongRef
      · -- the last strong reference is gone
        have hle := le_total doomed_nonneg (f := s.threads) t
        have hown : (s.threads t).doomed = 1 := by simp [Thread.doomed, hlast]
        have hsingle := h.ledger.single hreg
        have hzero : s.shared.mStrong = 0 := by
          by_contra hne
          rw [if_neg (fun hand => hne hand.1)] at hsingle
          omega
        exact step_zero h hreg hzero hstep
      · rw [advance_lastStrongRefs hlast hnot] at hpos
        exact absurd hpos hbefore

theorem unneeded_called {s' : State ι} {l : Label ι} (h : Inv M k s) (hun : Unneeded s l)
    (hs : step M s l = some s') : ¬ LastCalled s' := by
  have hinit : initialStrongValue = 268435456 := by rfl
  cases l with
  | call | giveStrong | giveWeak => exact hun.elim
  | run t agrees =>
    have hp : (s.threads t).point = .dropUnneeded := hun
    simp only [step, hp, h.touch_eq hp (by simp), advance, Option.some.injEq] at hs
    subst hs
    intro hcalled
    have hzero : s.shared.mStrong = 0 := hcalled (Nat.succ_pos _)
    obtain ⟨hheld, -⟩ := held_of_point (s := s) (t := t) (by simp [hp])
    have hs := h.ledger.strong
    have hfew := h.ledger.few
    omega

/-- In every run with the regular lifetime `onLastStrongRef` is called only after the last
strong reference was released, if and only if no promotion calls it. -/
theorem last_called_iff (hl : M.Lawful)
    (hmode : mode &&& M.objectLifetimeWeak = M.objectLifetimeStrong) (ls : List (Label ι))
    (s : State ι) :
    Run (step M) (fun s l => Proper M s l ∧ ∀ s', step M s l = some s' → LastCalled s')
      (constructed mode) ls s ↔
    Run (step M) (fun s l => Proper M s l ∧ ¬ Unneeded s l) (constructed mode) ls s := by
  have hstart : Inv M ⟨True, True⟩ (constructed mode : State ι) ∧
      (constructed mode : State ι).shared.regular M ∧ LastCalled (constructed mode : State ι) :=
    ⟨constructed_inv mode, constructed_regular.mpr hmode, fun hpos => absurd hpos (lt_irrefl 0)⟩
  constructor
  · intro hr
    refine hr.transfer (fun s => Inv M ⟨True, True⟩ s ∧ s.shared.regular M ∧ LastCalled s) ?_ hstart
    rintro s l s' ⟨h, hreg, -⟩ ⟨hproper, hcalled⟩ hs
    exact ⟨⟨hproper, fun hun => unneeded_called h hun hs (hcalled s' hs)⟩,
      step_inv hl h hproper (regular_not_late h hreg) hs,
      (regular_congr (step_flags hs)).mpr hreg, hcalled s' hs⟩
  · intro hr
    refine hr.transfer (fun s => Inv M ⟨True, True⟩ s ∧ s.shared.regular M ∧ LastCalled s) ?_ hstart
    rintro s l s' ⟨h, hreg, hcalled⟩ ⟨hproper, hnot⟩ hs
    have hkept := fun u (hu : step M s l = some u) => step_lastCalled h hreg hcalled hu hnot
    exact ⟨⟨hproper, hkept⟩, step_inv hl h hproper (regular_not_late h hreg) hs,
      (regular_congr (step_flags hs)).mpr hreg, hkept s' hs⟩

theorem last_called_lent : ∃ s, Run (step modes)
    (fun s l => Proper modes s l ∧ ∀ s', step modes s l = some s' → LastCalled s')
    (constructed 0) lent s := by
  have hend : (final (step modes) (fun s l => Proper modes s l ∧ ¬ Unneeded s l)
      (constructed 0) lent).isSome = true := by decide +kernel
  obtain ⟨s, hs⟩ := Option.isSome_iff_exists.mp hend
  exact ⟨s, (last_called_iff modes_lawful (by decide) lent s).mpr (final_run hs)⟩

/-- Two threads promote the first weak references of a regular object at once. -/
def contested : List (Label Bool) :=
  whole false .createWeak 1 ++ whole false .createWeak 1 ++ [.giveWeak false true] ++
    whole true .attemptIncStrong 2 ++ whole false .attemptIncStrong 5 ++
    List.replicate 3 (.run true true)

-- the second promotion undoes a reference that nobody needs, while the first one is held
example : (final (step modes) (Proper modes) (constructed 0) contested).any (fun s =>
    decide (0 < (s.threads false).strongs ∧ Unneeded s (.run true true))) = true := by
  decide +kernel

end Wingray.RefBase
