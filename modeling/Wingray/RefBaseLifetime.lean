import Wingray.RefBaseRuns

/-!
# How long an object lives

A regular object lives as long as its strong references, whatever the threads do; one
with an extended lifetime lives as long as any of its references, while its counts are
exact. Nothing is used after it is deleted, and nothing is left behind.
-/

set_option autoImplicit false

namespace Wingray.RefBase
open Parties GuardedRun

variable {ι : Type} [Fintype ι] [DecidableEq ι] {M : Modes} {k : Known} {s u : State ι} {t : ι}
  {ls ks : List (Label ι)} {mode : BitVec 32}

theorem run_inv_kept (hl : M.Lawful) (h : Inv M k u)
    (hr : Run (step M) (fun s l => Proper M s l ∧ ¬ Late s l) u ls s) : Inv M k s :=
  hr.invariant (Inv M k) (fun _ _ _ hi hok hs => step_inv hl hi hok.1 hok.2 hs) h

theorem regular_congr {a b : Shared} (h : a.mFlags = b.mFlags) : a.regular M ↔ b.regular M := by
  rw [Shared.regular, h, Shared.regular]

omit [Fintype ι] in
theorem run_flags {ok : State ι → Label ι → Prop} (hr : Run (step M) ok u ls s) :
    s.shared.mFlags = u.shared.mFlags :=
  hr.invariant (fun s => s.shared.mFlags = u.shared.mFlags)
    (fun _ _ _ hf _ hs => (step_flags hs).trans hf) rfl

omit [DecidableEq ι] in
theorem regular_not_late {l : Label ι} (h : Inv M k s) (hreg : s.shared.regular M) :
    ¬ Late s l := by
  intro hlate
  cases l with
  | call | giveStrong | giveWeak => exact hlate
  | run t agrees =>
    have hsound := h.sound t
    rw [Sound, hlate.1] at hsound
    exact absurd hlate.2 (not_lt.mpr (hsound hreg).2)

theorem regular_punctual (hl : M.Lawful) (h : Inv M k u) (hreg : u.shared.regular M)
    (hr : Run (step M) (Proper M) u ls s) :
    Run (step M) (fun s l => Proper M s l ∧ ¬ Late s l) u ls s := by
  refine hr.transfer (fun s => Inv M k s ∧ s.shared.regular M) ?_ ⟨h, hreg⟩
  rintro s l s' ⟨hi, hreg⟩ hok hs
  have hnot := regular_not_late (l := l) hi hreg
  exact ⟨⟨hok, hnot⟩, step_inv hl hi hok hnot hs, (regular_congr (step_flags hs)).mpr hreg⟩

omit [Fintype ι] [DecidableEq ι] in
theorem constructed_regular : (constructed mode : State ι).shared.regular M ↔
    mode &&& M.objectLifetimeWeak = M.objectLifetimeStrong := by
  simp [Shared.regular, constructed, extendObjectLifetime]

omit [DecidableEq ι] in
theorem Inv.holder (h : Inv M k s) (ht : 0 < (s.threads t).strongs+(s.threads t).weaks) :
    s.shared.refs = true ∧ (¬ s.shared.regular M → s.shared.object = true) := by
  have hpoint := (s.threads t).point.weak_nonneg
  have hwatched : 0 < total Thread.watched s.threads := watched_pos (t := t) (by
    rw [Thread.watched]
    omega)
  have hlast := h.ledger.once
  exact ⟨h.ledger.allocated (by omega), fun hext => h.ledger.kept hext hwatched⟩

omit [DecidableEq ι] in
theorem Inv.owner (h : Inv M k s) (ht : 0 < (s.threads t).strongs) : s.shared.object = true := by
  have hpoint := (s.threads t).point.strong_nonneg
  obtain ⟨hheld, hwatched⟩ := held_pos (s := s) (t := t) (by
    rw [Thread.held]
    omega)
  exact h.ledger.object_held hheld hwatched

/-- In every run with an extended lifetime that keeps the counts exact nothing deleted is
ever used, and any reference keeps the object. -/
theorem extended_safe (hl : M.Lawful)
    (hmode : mode &&& M.objectLifetimeWeak ≠ M.objectLifetimeStrong)
    (hr : Run (step M) (fun s l => Proper M s l ∧ ¬ Late s l) (constructed mode) ls s) :
    s.shared.fault = false ∧ ∀ t, 0 < (s.threads t).strongs+(s.threads t).weaks →
      s.shared.object = true ∧ s.shared.refs = true := by
  have h := run_inv_kept hl (constructed_inv mode) hr
  have hext : ¬ s.shared.regular M := by
    rw [regular_congr (run_flags hr), constructed_regular]
    exact hmode
  exact ⟨h.quiet, fun t ht => ⟨(h.holder ht).2 hext, (h.holder ht).1⟩⟩

theorem extended_safe_disturbed : ∃ s : State Bool, 0 < (s.threads true).strongs ∧
    s.shared.object = true := by
  obtain ⟨s, hs, hpos, -⟩ := disturbed_late
  exact ⟨s, hpos, ((extended_safe modes_lawful (by decide) hs).2 true (by omega)).1⟩

/-- Between calls the threads have the references that they hold. -/
structure AtRest (s : State ι) : Prop where
  held : 0 < total Thread.held s.threads ↔ ∃ t, 0 < (s.threads t).strongs
  watched : 0 < total Thread.watched s.threads ↔ ∃ t, 0 < (s.threads t).strongs+(s.threads t).weaks
  doomed : total Thread.doomed s.threads = 0
  last : total Thread.last s.threads = 0
  settling : total Thread.settling s.threads = 0

omit [DecidableEq ι] in
theorem atRest_of_idle (hidle : ∀ t, (s.threads t).point = .idle) : AtRest s where
  held := by
    constructor
    · intro hpos
      obtain ⟨t, ht⟩ := exists_of_total_pos hpos
      exact ⟨t, by simpa [Thread.held, hidle t] using ht⟩
    · rintro ⟨t, ht⟩
      exact (held_pos (t := t) (by simpa [Thread.held, hidle t] using ht)).1
  watched := by
    constructor
    · intro hpos
      obtain ⟨t, ht⟩ := exists_of_total_pos hpos
      rw [Thread.watched, hidle t, Point.weak, add_zero] at ht
      · exact ⟨t, by omega⟩
      all_goals simp
    · rintro ⟨t, ht⟩
      refine watched_pos (t := t) ?_
      rw [Thread.watched, hidle t, Point.weak, add_zero]
      · omega
      all_goals simp
  doomed := total_zero (fun t => by simp [Thread.doomed, hidle t])
  last := total_zero (fun t => by simp [Thread.last, hidle t])
  settling := total_zero (fun t => by simp [Thread.settling, hidle t])

omit [DecidableEq ι] in
theorem Inv.refs_at_rest {unowned : Prop} (h : Inv M ⟨False, unowned⟩ s) (hrest : AtRest s) :
    s.shared.refs = true ↔ ∃ t, 0 < (s.threads t).strongs+(s.threads t).weaks := by
  rw [← hrest.watched]
  have hlast := hrest.last
  have hnonneg := h.ledger.fewWeak
  constructor
  · intro hrefs
    by_contra hnone
    exact (h.ledger.fresh (by omega) hrefs).1
  · intro hpos
    exact h.ledger.allocated (by omega)

omit [DecidableEq ι] in
theorem Inv.used (h : Inv M ⟨True, True⟩ s) (ht : 0 < (s.threads t).strongs+(s.threads t).weaks) :
    Inv M ⟨False, True⟩ s where
  ledger := by
    have hpoint := (s.threads t).point.weak_nonneg
    have hwatched : 0 < total Thread.watched s.threads := watched_pos (t := t) (by
      rw [Thread.watched]
      omega)
    have hlast := h.ledger.once
    exact { h.ledger with fresh := fun hzero => by omega }
  sound := h.sound
  quiet := h.quiet

omit [DecidableEq ι] in
theorem Inv.owned (h : Inv M ⟨True, True⟩ s) (ht : 0 < (s.threads t).strongs) :
    Inv M ⟨False, False⟩ s where
  ledger := by
    have hinit : initialStrongValue = 268435456 := by rfl
    have hpoint := (s.threads t).point.strong_nonneg
    obtain ⟨hheld, -⟩ := held_pos (s := s) (t := t) (by
      rw [Thread.held]
      omega)
    have hs := h.ledger.strong
    have hfew := h.ledger.few
    exact { (h.used (t := t) (by omega)).ledger with first := fun hfirst => by omega }
  sound := h.sound
  quiet := h.quiet

omit [Fintype ι] [DecidableEq ι] in
theorem gone_of_none {there : Bool} {f : ι → ℕ} (h : there = true ↔ ∃ v, 0 < f v)
    (hnone : ∀ v, f v = 0) : there = false := by
  refine Bool.eq_false_iff.mpr fun hthere => ?_
  obtain ⟨v, hv⟩ := h.mp hthere
  exact absurd (hnone v) hv.ne'

def returned : List (Label Bool) := whole false .decStrong 2 ++ whole true .decStrong 5

/-- With an extended lifetime, once a reference was held: whenever no call is under way
the object is destroyed and its `weakref_impl` deleted if and only if nobody holds one. -/
theorem extended_released (hl : M.Lawful)
    (hmode : mode &&& M.objectLifetimeWeak ≠ M.objectLifetimeStrong)
    (hu : Run (step M) (fun s l => Proper M s l ∧ ¬ Late s l) (constructed mode) ls u)
    (ht : 0 < (u.threads t).strongs+(u.threads t).weaks)
    (hs : Run (step M) (fun s l => Proper M s l ∧ ¬ Late s l) u ks s)
    (hidle : ∀ v, (s.threads v).point = .idle) :
    (s.shared.object = true ↔ ∃ v, 0 < (s.threads v).strongs+(s.threads v).weaks) ∧
    (s.shared.refs = true ↔ ∃ v, 0 < (s.threads v).strongs+(s.threads v).weaks) := by
  have hext : ¬ s.shared.regular M := by
    rw [regular_congr ((run_flags hs).trans (run_flags hu)), constructed_regular]
    exact hmode
  have h := run_inv_kept hl ((run_inv_kept hl (constructed_inv mode) hu).used ht) hs
  have hrefs := h.refs_at_rest (atRest_of_idle hidle)
  refine ⟨⟨fun hobject => hrefs.mp ?_, fun ⟨v, hv⟩ => (h.holder hv).2 hext⟩, hrefs⟩
  by_contra hgone
  rw [h.ledger.gone (Bool.eq_false_iff.mpr hgone)] at hobject
  cases hobject

theorem extended_released_copied : ∃ s : State Bool, s.shared.object = false ∧
    s.shared.refs = false := by
  have hend : (final (step modes) (fun s l => Proper modes s l ∧ ¬ Late s l) (constructed 1)
      (whole false .createWeak 1)).any (fun u =>
        decide (0 < (u.threads false).strongs+(u.threads false).weaks) &&
          (final (step modes) (fun s l => Proper modes s l ∧ ¬ Late s l) u
            (whole false .decWeak 3)).any (fun s =>
              decide (∀ v, (s.threads v).point = .idle ∧
                (s.threads v).strongs+(s.threads v).weaks = 0))) = true := by decide +kernel
  obtain ⟨u, hu, hrest⟩ := (Option.any_eq_true _ _).mp hend
  obtain ⟨ht, hrest⟩ := Bool.and_eq_true_iff.mp hrest
  obtain ⟨s, hs, hempty⟩ := (Option.any_eq_true _ _).mp hrest
  have hempty := of_decide_eq_true hempty
  obtain ⟨hobject, hrefs⟩ := extended_released modes_lawful (by decide) (final_run hu)
    (of_decide_eq_true ht) (final_run hs) (fun v => (hempty v).1)
  exact ⟨s, gone_of_none hobject fun v => (hempty v).2, gone_of_none hrefs fun v => (hempty v).2⟩

def writesStrong : Point → Bool
  | .incStrong _ | .subtract | .decStrong | .promoteFrom _ | .promoteFirst _ | .revive
  | .settleFrom _ => true
  | _ => false

theorem advance_strong {agrees : Bool} {sh : Shared} {th : Thread}
    (h : writesStrong th.point = false) : (advance M agrees sh th).1.mStrong = sh.mStrong := by
  fun_cases advance M agrees sh th <;> first | rfl | simp_all [writesStrong]

omit [DecidableEq ι] in
theorem advance_zero {agrees : Bool} (h : Inv M k s) (hreg : s.shared.regular M)
    (hzero : s.shared.mStrong = 0) :
    (advance M agrees s.shared (s.threads t)).1.mStrong = 0 := by
  have hinit : initialStrongValue = 268435456 := by rfl
  have hs := h.ledger.strong
  have hfew := h.ledger.few
  have hsound := h.sound t
  have hheld : ¬ 0 < (s.threads t).point.strong := by
    intro hpos
    have hall := held_of_point (s := s) (t := t) hpos
    omega
  cases hp : (s.threads t).point with
  | incStrong force =>
    rw [Sound, hp] at hsound
    have hpos := h.strong_pos hsound hreg (by simp [Thread.doomed, hp])
    omega
  | subtract | decStrong | settleFrom curCount =>
    rw [hp] at hheld
    exact absurd (by simp) hheld
  | promoteFrom curCount =>
    rw [Sound, hp] at hsound
    simp only [advance, hp]
    rw [if_neg (by omega)]
    exact hzero
  | promoteFirst curCount =>
    rw [Sound, hp] at hsound
    simp only [advance, hp]
    rw [if_neg (by omega)]
    exact hzero
  | revive =>
    rw [Sound, hp] at hsound
    exact absurd hreg hsound
  | _ => rw [advance_strong (by rw [hp]; rfl), hzero]

theorem step_zero {s' : State ι} {l : Label ι} (h : Inv M k s) (hreg : s.shared.regular M)
    (hzero : s.shared.mStrong = 0) (hs : step M s l = some s') : s'.shared.mStrong = 0 := by
  cases l with
  | call t op =>
    simp only [step] at hs
    split at hs <;> cases hs
    exact hzero
  | run t agrees =>
    simp only [step] at hs
    split at hs
    · cases hs
    · rename_i p hne
      rw [h.touch_eq rfl hne] at hs
      cases hs
      exact advance_zero h hreg hzero
  | giveStrong t u | giveWeak t u =>
    cases hs
    exact hzero

/-- With the regular lifetime nobody has a strong reference again after the last one was
released: from then on every promotion fails. -/
theorem regular_not_revived (hl : M.Lawful)
    (hmode : mode &&& M.objectLifetimeWeak = M.objectLifetimeStrong)
    (hu : Run (step M) (Proper M) (constructed mode) ls u) (hzero : u.shared.mStrong = 0)
    (hs : Run (step M) (Proper M) u ks s) :
    s.shared.mStrong = 0 ∧ ∀ v, (s.threads v).strongs = 0 := by
  have hreg : u.shared.regular M := by
    rw [regular_congr (run_flags hu), constructed_regular]
    exact hmode
  have hbefore := regular_punctual hl (constructed_inv mode) (constructed_regular.mpr hmode) hu
  have hinv := run_inv_kept hl (constructed_inv mode) hbefore
  have hall : Inv M ⟨True, True⟩ s ∧ s.shared.regular M ∧ s.shared.mStrong = 0 := by
    refine hs.invariant (fun s => Inv M ⟨True, True⟩ s ∧ s.shared.regular M ∧
      s.shared.mStrong = 0) ?_ ⟨hinv, hreg, hzero⟩
    rintro s l s' ⟨hi, hreg, hzero⟩ hok hs
    exact ⟨step_inv hl hi hok (regular_not_late hi hreg) hs,
      (regular_congr (step_flags hs)).mpr hreg, step_zero hi hreg hzero hs⟩
  obtain ⟨h, -, hzero⟩ := hall
  refine ⟨hzero, fun v => ?_⟩
  have hinit : initialStrongValue = 268435456 := by rfl
  have hpoint := (s.threads v).point.strong_nonneg
  have hle := le_total held_nonneg (f := s.threads) v
  have hs := h.ledger.strong
  have hfew := h.ledger.few
  rw [Thread.held] at hle
  omega

def outlived : List (Label Bool) :=
  whole false .incStrong 4 ++ whole false .incWeak 1 ++ whole false .decStrong 4

theorem regular_not_revived_outlived : ∃ s : State Bool, (s.threads false).weaks = 1 ∧
    (s.threads false).strongs = 0 ∧ s.shared.mStrong = 0 := by
  have hend : (final (step modes) (Proper modes) (constructed 0) outlived).any (fun u =>
      decide (u.shared.mStrong = 0) &&
        (final (step modes) (Proper modes) u (whole false .attemptIncStrong 3)).any (fun s =>
          decide ((s.threads false).weaks = 1))) = true := by decide +kernel
  obtain ⟨u, hu, hrest⟩ := (Option.any_eq_true _ _).mp hend
  obtain ⟨hzero, hrest⟩ := Bool.and_eq_true_iff.mp hrest
  obtain ⟨s, hs, hweak⟩ := (Option.any_eq_true _ _).mp hrest
  obtain ⟨hstill, hnone⟩ := regular_not_revived modes_lawful (by decide) (final_run hu)
    (of_decide_eq_true hzero) (final_run hs)
  exact ⟨s, of_decide_eq_true hweak, hnone false, hstill⟩

end Wingray.RefBase
