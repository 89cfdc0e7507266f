import Wingray.RefBaseSteps

/-!
# Every run of the threads that use an object

What holds in every state that any number of disciplined threads can reach, whatever
the order of their steps.
-/

set_option autoImplicit false

namespace Wingray.RefBase
open Parties GuardedRun

variable {ι : Type} [Fintype ι] {M : Modes} {k : Known} {s : State ι} {t u : ι}

/-- The initial value is about to be taken out of a strong count that has lost it. -/
def Late (s : State ι) : Label ι → Prop
  | .run t _ => (s.threads t).point = .subtract ∧ s.shared.mStrong < initialStrongValue
  | _ => False

/-- A step of a disciplined program that stays below the initial value. -/
def Proper (M : Modes) (s : State ι) (l : Label ι) : Prop := Disciplined M s l ∧ Room s

def Unforced : Label ι → Prop
  | .call _ .forceIncStrong => False
  | _ => True

instance (s : State ι) : ∀ l, Decidable (Late s l)
  | .run _ _ => inferInstanceAs (Decidable (_ ∧ _))
  | .call _ _ | .giveStrong _ _ | .giveWeak _ _ => inferInstanceAs (Decidable False)

instance [DecidableEq ι] (M : Modes) (s : State ι) (l : Label ι) : Decidable (Proper M s l) :=
  inferInstanceAs (Decidable (_ ∧ _ ∧ _))

instance : ∀ l : Label ι, Decidable (Unforced l)
  | .call _ .forceIncStrong => inferInstanceAs (Decidable False)
  | .call _ .incStrong | .call _ .decStrong | .call _ .createWeak | .call _ .incWeak
  | .call _ .decWeak | .call _ .attemptIncStrong | .call _ .attemptIncWeak | .call _ .delete
  | .run _ _ | .giveStrong _ _ | .giveWeak _ _ => inferInstanceAs (Decidable True)

theorem Inv.refs_kept {p : Point} (h : Inv M k s) (hp : (s.threads t).point = p) (hne : p ≠ .idle) :
    s.shared.refs = true := by
  have hsound := h.sound t
  have hpoint := (s.threads t).point.weak_nonneg
  have hlast := total_nonneg last_nonneg (f := s.threads)
  have hwatched := total_nonneg watched_nonneg (f := s.threads)
  have hown : 0 < (s.threads t).watched → s.shared.refs = true := fun hpos =>
    h.ledger.allocated (by
      have hw := watched_pos hpos
      omega)
  have hbehind : 0 < (s.threads t).last → s.shared.refs = true := fun hpos =>
    h.ledger.allocated (by
      have hle := le_total last_nonneg (f := s.threads) t
      omega)
  have hused : MayUse M s t → (s.threads t).last = 0 → s.shared.refs = true := by
    intro hu hl
    by_contra hr
    have ho := (h.usable hu hl).1
    rw [h.ledger.gone (Bool.eq_false_iff.mpr hr)] at ho
    cases ho
  have hweak : 0 < p.weak → s.shared.refs = true := fun hpos =>
    hown (by
      rw [Thread.watched, hp]
      omega)
  rw [Thread.watched] at hown
  rw [Thread.last, hp] at hbehind hused
  rw [Sound, hp] at hsound
  cases p with
  | idle => exact absurd rfl hne
  | incWeak aim =>
    cases aim with
    | copy | promotion => exact hown (by omega)
    | create | strong => exact hused hsound (by simp)
  | destroy releases | destroyWeak releases =>
    cases releases with
    | true => exact hweak (by simp)
    | false => exact hbehind (by simp)
  | lastWeak => exact hbehind (by simp)
  | incWeakAttempt | incWeakFrom => exact hown (by omega)
  | _ => exact hweak (by simp)

theorem Inv.object_kept {p : Point} (h : Inv M k s) (hp : (s.threads t).point = p)
    (huses : usesObject M s.shared p = true) : s.shared.object = true := by
  have hsound := h.sound t
  have hused : MayUse M s t → (s.threads t).last = 0 → s.shared.object = true :=
    fun hu hl => (h.usable hu hl).1
  have hheld : 0 < p.strong → s.shared.object = true := by
    intro hpos
    obtain ⟨hh, hw⟩ := held_of_point (t := t) (s := s) (by rwa [hp])
    exact h.ledger.object_held hh hw
  have hkept : 0 < p.weak → ¬ s.shared.regular M → s.shared.object = true := by
    intro hpos hext
    exact h.ledger.kept hext (watched_of_point (t := t) (by rwa [hp]))
  have hdoomed : 0 < p.doomed → s.shared.regular M → s.shared.object = true := by
    intro hpos hreg
    have hle := le_total doomed_nonneg (f := s.threads) t
    have hown : (s.threads t).doomed = p.doomed := by rw [Thread.doomed, hp]
    have hsingle := h.ledger.single hreg
    by_contra ho
    rw [if_neg (fun hand => ho hand.2)] at hsingle
    omega
  rw [Thread.last, hp] at hused
  rw [Sound, hp] at hsound
  cases p with
  | incWeak aim =>
    cases aim with
    | copy | promotion => simp [usesObject] at huses
    | create | strong => exact hused hsound (by simp)
  | destroy releases =>
    cases releases with
    | true => exact hdoomed (by simp) hsound
    | false => exact hsound
  | onLastStrongRef =>
    by_cases hreg : s.shared.regular M
    · exact hdoomed (by simp) hreg
    · exact hkept (by simp) hreg
  | lastWeak => exact hsound (by simpa [usesObject] using huses)
  | onIncStrongAttempted => exact hkept (by simp) hsound
  | onFirstRef | dropUnneeded => exact hheld (by simp)
  | _ => simp [usesObject] at huses

theorem Inv.touch_eq {p : Point} (h : Inv M k s) (hp : (s.threads t).point = p) (hne : p ≠ .idle) :
    touch M s.shared p = s.shared := by
  have hobject : (usesObject M s.shared p && !s.shared.object) = false := by
    cases huses : usesObject M s.shared p with
    | false => rfl
    | true => rw [h.object_kept hp huses, Bool.not_true, Bool.and_false]
  have hrefs : (usesRefs p && !s.shared.refs) = false := by
    rw [h.refs_kept hp hne, Bool.not_true, Bool.and_false]
  rw [touch, hobject, hrefs, Bool.or_false, Bool.or_false]

variable [DecidableEq ι]

theorem others_sound {th : Thread} (h : Inv M k s)
    (ht : s.threads t ≠ Thread.empty ∨ Alone s t) (hu : u ≠ t) :
    Sound M ⟨s.shared, Function.update s.threads t th⟩ u := by
  rcases ht with hne | ha
  · exact (h.sound u).other hu hne rfl (.inl rfl)
  · rw [Sound]
    simp only [Function.update_of_ne hu, ha u hu]
    trivial

theorem Inv.called {th : Thread} {d : ℤ} (h : Inv M k s)
    (ht : s.threads t ≠ Thread.empty ∨ Alone s t) (hm : Moves (s.threads t) th 0 0 0 d 0)
    (hb : Balanced M k s.shared (total Thread.held s.threads) (total Thread.watched s.threads)
      (total Thread.doomed s.threads) (total Thread.last s.threads+d)
      (total Thread.settling s.threads))
    (hs : Sound M ⟨s.shared, Function.update s.threads t th⟩ t) :
    Inv M k ⟨s.shared, Function.update s.threads t th⟩ where
  ledger := .update hm (by simpa using hb)
  sound := by
    intro u
    by_cases hu : u = t
    · rwa [hu]
    · exact others_sound h ht hu
  quiet := h.quiet

theorem call_inv {op : Op} (h : Inv M k s) (hp : (s.threads t).point = .idle)
    (hlic : Licensed M s t op) :
    Inv M k ⟨s.shared, Function.update s.threads t (op.start (s.threads t))⟩ := by
  have hown : 0 < (s.threads t).strongs ∨ 0 < (s.threads t).weaks →
      s.threads t ≠ Thread.empty := by
    intro hpos he
    simp [he, Thread.empty] at hpos
  have hb : Balanced M k s.shared (total Thread.held s.threads) (total Thread.watched s.threads)
      (total Thread.doomed s.threads) (total Thread.last s.threads+0)
      (total Thread.settling s.threads) := by
    rw [add_zero]
    exact h.ledger
  have hmoves : ∀ q : Point, q.strong = 0 → q.weak = 0 → q.doomed = 0 → q.last = 0 →
      q.settling = 0 → Moves (s.threads t) ((s.threads t).goto q) 0 0 0 0 0 := by
    intro q hstrong hweak hdoomed hlast hsettling
    constructor <;>
      simp only [Thread.held, Thread.watched, Thread.doomed, Thread.last, Thread.settling,
        Thread.goto, hp, hstrong, hweak, hdoomed, hlast, hsettling] <;> simp
  have huse : MayUse M s t → s.threads t ≠ Thread.empty ∨ Alone s t := by
    rintro (hpos | ⟨-, hpos⟩ | ⟨ha, -⟩)
    · exact .inl (hown (.inl hpos))
    · exact .inl (hown (by omega))
    · exact .inr ha
  cases op with
  | incStrong | forceIncStrong | createWeak =>
    refine h.called (huse hlic) (hmoves _ rfl rfl rfl rfl rfl) hb ?_
    rw [Sound]
    simp only [Function.update_self]
    exact MayUse.goto hlic rfl rfl
  | incWeak | attemptIncStrong | attemptIncWeak =>
    have hpos : 0 < (s.threads t).strongs+(s.threads t).weaks := hlic
    refine h.called (.inl (hown (by omega))) (hmoves _ rfl rfl rfl rfl rfl) hb ?_
    simpa only [Sound, Op.start, Function.update_self, Thread.goto] using hpos
  | decStrong =>
    have hpos : 0 < (s.threads t).strongs := hlic
    refine h.called (.inl (hown (.inl hpos))) ?_ hb ?_
    · constructor <;>
        simp [Thread.held, Thread.watched, Thread.doomed, Thread.last, Thread.settling, Op.start,
          hp] <;> omega
    · simp [Sound, Op.start]
  | decWeak =>
    have hpos : 0 < (s.threads t).weaks := hlic
    refine h.called (.inl (hown (.inr hpos))) ?_ hb ?_
    · constructor <;>
        simp [Thread.held, Thread.watched, Thread.doomed, Thread.last, Thread.settling, Op.start,
          hp]
      omega
    · simp [Sound, Op.start]
  | delete =>
    obtain ⟨ha, hobject, hs, hw⟩ := hlic
    have hnone : total Thread.watched s.threads = 0 := by
      rw [ha.total (by rfl), Thread.watched, hp, hs, hw]
      rfl
    have hlast : total Thread.last s.threads = 0 := by
      rw [ha.total (by rfl), Thread.last, hp]
      rfl
    refine h.called (d := 1) (.inr ha) ?_ ?_ ?_
    · constructor <;>
        simp [Thread.held, Thread.watched, Thread.doomed, Thread.last, Thread.settling, Op.start,
          Thread.goto, hp]
    · rw [hlast, zero_add]
      exact h.ledger.delete hnone hobject
    · simpa only [Sound, Op.start, Function.update_self, Thread.goto] using hobject

theorem run_inv {agrees : Bool} (hl : M.Lawful) (h : Inv M k s) (hroom : Room s)
    (hlate : ¬ Late s (.run t agrees)) {p : Point} (hp : (s.threads t).point = p)
    (hne : p ≠ .idle) : Inv M k (moved M agrees s t) := by
  cases p with
  | idle => exact absurd rfl hne
  | incWeak => exact incWeak_inv h hroom hp
  | incStrong => exact incStrong_inv h hroom hp
  | subtract => exact subtract_inv h hp (not_lt.mp fun hlow => hlate ⟨hp, hlow⟩)
  | onFirstRef => exact onFirstRef_inv h hp
  | decStrong => exact decStrong_inv h hp
  | onLastStrongRef => exact onLastStrongRef_inv hl h hp
  | destroy => exact destroy_inv hl h hp
  | destroyWeak => exact destroyWeak_inv h hp
  | decWeak => exact decWeak_inv h hp
  | lastWeak => exact lastWeak_inv hl h hp
  | promote => exact promote_inv h hp
  | promoteFrom => exact promoteFrom_inv h hroom hp
  | promoteFirst => exact promoteFirst_inv h hroom hp
  | promoteAgain => exact promoteAgain_inv h hp
  | onIncStrongAttempted => exact onIncStrongAttempted_inv h hp
  | revive => exact revive_inv h hroom hp
  | dropUnneeded => exact dropUnneeded_inv h hp
  | settle => exact settle_inv h hp
  | settleFrom => exact settleFrom_inv h hp
  | incWeakAttempt => exact incWeakAttempt_inv h hp
  | incWeakFrom => exact incWeakFrom_inv h hroom hp

theorem pass_total (m : Thread → ℤ) {lose gain : Thread → Thread} {n : ℤ}
    (hlose : m (lose (s.threads t)) = m (s.threads t)-n) (hgain : ∀ v, m (gain v) = m v+n) :
    total m (pass lose gain s.threads t u) = total m s.threads := by
  rw [pass, total_update, total_update, hgain, hlose]
  ring

omit [Fintype ι] in
theorem pass_point {lose gain : Thread → Thread} (hlose : ∀ v, (lose v).point = v.point)
    (hgain : ∀ v, (gain v).point = v.point) (v : ι) :
    (pass lose gain s.threads t u v).point = (s.threads v).point := by
  rw [pass]
  by_cases hu : v = u
  · rw [hu, Function.update_self, hgain]
    by_cases ht : u = t
    · rw [ht, Function.update_self, hlose]
    · rw [Function.update_of_ne ht]
  · rw [Function.update_of_ne hu]
    by_cases ht : v = t
    · rw [ht, Function.update_self, hlose]
    · rw [Function.update_of_ne ht]

theorem pass_inv {lose gain : Thread → Thread} {a b : ℤ} (h : Inv M k s)
    (hne : s.threads t ≠ Thread.empty) (hidle : (s.threads t).point = .idle)
    (hlose : Moves (s.threads t) (lose (s.threads t)) (-a) (-b) 0 0 0)
    (hgain : ∀ v, Moves v (gain v) a b 0 0 0) (hpoint : ∀ v, (lose v).point = v.point)
    (hmore : ∀ v, (gain v).point = v.point ∧ v.strongs ≤ (gain v).strongs ∧
      v.weaks ≤ (gain v).weaks) :
    Inv M k { s with threads := pass lose gain s.threads t u } where
  ledger := by
    have hsame : ∀ (m : Thread → ℤ) (n : ℤ), m (lose (s.threads t)) = m (s.threads t)-n →
        (∀ v, m (gain v) = m v+n) → total m (pass lose gain s.threads t u) = total m s.threads :=
      fun m n => pass_total m
    rw [Ledger, hsame _ a hlose.held (fun v => (hgain v).held),
      hsame _ b hlose.watched (fun v => (hgain v).watched),
      hsame _ 0 (by simpa using hlose.doomed) (fun v => (hgain v).doomed),
      hsame _ 0 (by simpa using hlose.last) (fun v => (hgain v).last),
      hsame _ 0 (by simpa using hlose.settling) (fun v => (hgain v).settling)]
    exact h.ledger
  sound := by
    intro v
    have hpass := pass_point (s := s) (t := t) (u := u) hpoint (fun w => (hmore w).1) v
    by_cases hv : v = t
    · -- a thread between two calls relies on nothing
      rw [hv, hidle] at hpass
      rw [Sound, hv, hpass]
      trivial
    · have hnot : ¬ Alone s v := fun ha => hne (ha t (Ne.symm hv))
      have hleft : Function.update s.threads t (lose (s.threads t)) v = s.threads v := by
        rw [Function.update_of_ne hv]
      have hstays : (s.threads v).strongs ≤ (pass lose gain s.threads t u v).strongs ∧
          (s.threads v).weaks ≤ (pass lose gain s.threads t u v).weaks := by
        rw [pass]
        by_cases hu : v = u
        · rw [← hu, Function.update_self, hleft]
          exact (hmore _).2
        · rw [Function.update_of_ne hu, hleft]
          exact ⟨le_rfl, le_rfl⟩
      exact (h.sound v).kept hnot hpass hstays.1 hstays.2 rfl (.inl rfl)
  quiet := h.quiet

theorem step_inv {s' : State ι} {l : Label ι} (hl : M.Lawful) (h : Inv M k s)
    (hproper : Proper M s l) (hlate : ¬ Late s l) (hs : step M s l = some s') : Inv M k s' := by
  obtain ⟨hdisc, hroom⟩ := hproper
  cases l with
  | call t op =>
    simp only [step] at hs
    split at hs
    · rename_i hp
      cases hs
      exact call_inv h hp hdisc
    · cases hs
  | run t agrees =>
    simp only [step] at hs
    split at hs
    · cases hs
    · rename_i p hne
      rw [h.touch_eq rfl hne] at hs
      cases hs
      exact run_inv hl h hroom hlate rfl hne
  | giveStrong t u =>
    obtain ⟨hp, hpos⟩ := hdisc
    cases hs
    refine pass_inv (a := 1) (b := 1) h ?_ hp ?_ ?_ (fun _ => rfl)
      (fun v => ⟨rfl, Nat.le_succ _, le_rfl⟩)
    · intro he
      simp [he, Thread.empty] at hpos
    · constructor <;>
        simp [Thread.held, Thread.watched, Thread.doomed, Thread.last, Thread.settling,
          Thread.loseStrong] <;> omega
    · intro v
      constructor <;>
        simp [Thread.held, Thread.watched, Thread.doomed, Thread.last, Thread.settling,
          Thread.addStrong] <;> ring
  | giveWeak t u =>
    obtain ⟨hp, hpos⟩ := hdisc
    cases hs
    refine pass_inv (a := 0) (b := 1) h ?_ hp ?_ ?_ (fun _ => rfl)
      (fun v => ⟨rfl, le_rfl, Nat.le_succ _⟩)
    · intro he
      simp [he, Thread.empty] at hpos
    · constructor <;>
        simp [Thread.held, Thread.watched, Thread.doomed, Thread.last, Thread.settling,
          Thread.loseWeak]
      omega
    · intro v
      constructor <;>
        simp [Thread.held, Thread.watched, Thread.doomed, Thread.last, Thread.settling,
          Thread.addWeak]
      ring

omit [DecidableEq ι] in
theorem constructed_inv (mode : BitVec 32) :
    Inv M ⟨True, True⟩ (constructed mode : State ι) where
  ledger := by
    have hzero : ∀ m : Thread → ℤ, m Thread.empty = 0 →
        total m (constructed mode : State ι).threads = 0 := fun m hm => total_zero (fun _ => hm)
    rw [Ledger, hzero _ rfl, hzero _ rfl, hzero _ rfl, hzero _ rfl, hzero _ rfl]
    have hinit : initialStrongValue = 268435456 := by rfl
    constructor <;> simp [constructed, extendObjectLifetime, hinit]
  sound := fun _ => trivial
  quiet := rfl

theorem advance_flags (agrees : Bool) (sh : Shared) (th : Thread) :
    (advance M agrees sh th).1.mFlags = sh.mFlags := by
  fun_cases advance M agrees sh th <;> rfl

omit [Fintype ι] in
theorem step_flags {s' : State ι} {l : Label ι} (hs : step M s l = some s') :
    s'.shared.mFlags = s.shared.mFlags := by
  cases l with
  | call t op =>
    simp only [step] at hs
    split at hs <;> cases hs
    rfl
  | run t agrees =>
    simp only [step] at hs
    split at hs
    · cases hs
    · cases hs
      exact advance_flags agrees _ _
  | giveStrong t u | giveWeak t u =>
    cases hs
    rfl

/-- The strong count is the strong references that the threads have, or by the initial
value more, and the weak count is all their references. -/
def Exact (s : State ι) : Prop :=
  (s.shared.mStrong = total Thread.held s.threads ∨
    s.shared.mStrong = total Thread.held s.threads+initialStrongValue) ∧
  s.shared.mWeak = total Thread.watched s.threads

omit [DecidableEq ι] in
theorem Inv.exact (h : Inv M k s) : Exact s :=
  ⟨h.ledger.strong.imp_right And.left, h.ledger.weak⟩

theorem late_inexact {s' : State ι} {l : Label ι} (h : Inv M k s) (hlate : Late s l)
    (hs : step M s l = some s') : ¬ Exact s' := by
  have hinit : initialStrongValue = 268435456 := by rfl
  cases l with
  | call | giveStrong | giveWeak => exact hlate.elim
  | run t agrees =>
    obtain ⟨hp, hlow⟩ := hlate
    simp only [step, hp, h.touch_eq hp (by simp), advance, Option.some.injEq] at hs
    subst hs
    rintro ⟨hstrong, -⟩
    have hs := h.ledger.strong
    have hfew := h.ledger.few
    have hown : ((s.threads t).goto .onFirstRef).held = (s.threads t).held := by
      simp [Thread.held, hp]
    simp only [total_update, hown] at hstrong
    rw [int32_eq] at hstrong <;> omega

/-- In every run the counts are exact in every state if and only if no first strong
reference takes out an initial value that a promotion has taken out before it. -/
theorem counts_exact_iff (hl : M.Lawful) (mode : BitVec 32) (ls : List (Label ι)) (s : State ι) :
    Run (step M) (fun s l => Proper M s l ∧ ∀ s', step M s l = some s' → Exact s')
      (constructed mode) ls s ↔
    Run (step M) (fun s l => Proper M s l ∧ ¬ Late s l) (constructed mode) ls s := by
  constructor
  · intro hr
    refine hr.transfer (Inv M ⟨True, True⟩) ?_ (constructed_inv mode)
    intro s l s' h hok hs
    have hnot : ¬ Late s l := fun hlate => late_inexact h hlate hs (hok.2 s' hs)
    exact ⟨⟨hok.1, hnot⟩, step_inv hl h hok.1 hnot hs⟩
  · intro hr
    refine hr.transfer (Inv M ⟨True, True⟩) ?_ (constructed_inv mode)
    intro s l s' h hok hs
    have hkept := fun u (hu : step M s l = some u) => step_inv hl h hok.1 hok.2 hu
    exact ⟨⟨hok.1, fun u hu => (hkept u hu).exact⟩, hkept s' hs⟩

def whole (t : Bool) (op : Op) (n : ℕ) : List (Label Bool) :=
  .call t op :: List.replicate n (.run t true)

def lent : List (Label Bool) :=
  whole false .incStrong 4 ++ whole false .incStrong 2 ++ [.giveStrong false true]

theorem lent_run : ∃ s, Run (step modes) (fun s l => Proper modes s l ∧ ¬ Late s l ∧ Unforced l)
    (constructed 0) lent s ∧ 0 < (s.threads true).strongs := by
  have hend : (final (step modes) (fun s l => Proper modes s l ∧ ¬ Late s l ∧ Unforced l)
      (constructed 0) lent).any (fun s => decide (0 < (s.threads true).strongs)) = true := by
    decide +kernel
  obtain ⟨s, hs, hpos⟩ := (Option.any_eq_true _ _).mp hend
  exact ⟨s, final_run hs, of_decide_eq_true hpos⟩

theorem counts_exact_lent : ∃ s, Run (step modes)
    (fun s l => Proper modes s l ∧ ∀ s', step modes s l = some s' → Exact s')
    (constructed 0) lent s := by
  obtain ⟨s, hs, -⟩ := lent_run
  refine ⟨s, (counts_exact_iff modes_lawful 0 lent s).mpr ?_⟩
  exact hs.transfer (fun _ => True) (fun _ _ _ _ ho _ => ⟨⟨ho.1, ho.2.1⟩, trivial⟩) trivial

/-- With an extended lifetime one thread promotes its weak reference while another is in
`incStrong`, between its increment and its subtraction. -/
def disturbed : List (Label Bool) :=
  whole false .createWeak 1 ++ whole false .createWeak 1 ++ [.giveWeak false true] ++
    whole false .incStrong 2 ++ whole true .attemptIncStrong 5

theorem disturbed_late : ∃ s, Run (step modes) (fun s l => Proper modes s l ∧ ¬ Late s l)
    (constructed 1) disturbed s ∧ 0 < (s.threads true).strongs ∧ Late s (.run false true) := by
  have hend : (final (step modes) (fun s l => Proper modes s l ∧ ¬ Late s l) (constructed 1)
      disturbed).any (fun s => decide (0 < (s.threads true).strongs ∧
        Late s (.run false true))) = true := by decide +kernel
  obtain ⟨s, hs, hlate⟩ := (Option.any_eq_true _ _).mp hend
  exact ⟨s, final_run hs, of_decide_eq_true hlate⟩

end Wingray.RefBase
