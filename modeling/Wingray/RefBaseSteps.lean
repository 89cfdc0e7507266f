import Wingray.RefBaseThreads

/-!
# Every step keeps the counts

One lemma for each kind of access to the counts: the ledger stays balanced, and the
thread may rely on what the next point of its method takes for granted.
-/

set_option autoImplicit false

namespace Wingray.RefBase
open Parties

variable {ι : Type} [Fintype ι] [DecidableEq ι] {M : Modes} {k : Known} {s : State ι} {t : ι}

structure Moves (th th' : Thread) (a b c d e : ℤ) : Prop where
  held : th'.held = th.held+a
  watched : th'.watched = th.watched+b
  doomed : th'.doomed = th.doomed+c
  last : th'.last = th.last+d
  settling : th'.settling = th.settling+e

theorem Ledger.update {threads : ι → Thread} {sh : Shared} {th : Thread} {a b c d e : ℤ}
    (hm : Moves (threads t) th a b c d e)
    (hb : Balanced M k sh (total Thread.held threads+a) (total Thread.watched threads+b)
      (total Thread.doomed threads+c) (total Thread.last threads+d)
      (total Thread.settling threads+e)) :
    Ledger M k sh (Function.update threads t th) := by
  have hshift : ∀ (m : Thread → ℤ) (n : ℤ), m th = m (threads t)+n →
      total m (Function.update threads t th) = total m threads+n := by
    intro m n hn
    rw [total_update, hn]
    ring
  rw [Ledger, hshift _ a hm.held, hshift _ b hm.watched, hshift _ c hm.doomed,
    hshift _ d hm.last, hshift _ e hm.settling]
  exact hb

theorem Inv.advanced {sh : Shared} {th : Thread} {a b c d e : ℤ} (h : Inv M k s)
    (hne : s.threads t ≠ Thread.empty) (hm : Moves (s.threads t) th a b c d e)
    (hb : Balanced M k sh (total Thread.held s.threads+a) (total Thread.watched s.threads+b)
      (total Thread.doomed s.threads+c) (total Thread.last s.threads+d)
      (total Thread.settling s.threads+e))
    (hflags : sh.mFlags = s.shared.mFlags) (hfault : sh.fault = s.shared.fault)
    (hobject : sh.object = s.shared.object ∨ ∀ u, u ≠ t → (s.threads u).last = 0)
    (hs : Sound M ⟨sh, Function.update s.threads t th⟩ t) :
    Inv M k ⟨sh, Function.update s.threads t th⟩ where
  ledger := .update hm hb
  sound := by
    intro u
    by_cases hu : u = t
    · rwa [hu]
    · exact (h.sound u).other hu hne hflags (hobject.imp_right (fun ho => ho u hu))
  quiet := hfault.trans h.quiet

theorem Inv.goto {sh : Shared} {p q : Point} (h : Inv M k s) (hp : (s.threads t).point = p)
    (hne : p ≠ .idle)
    (hb : Balanced M k sh (total Thread.held s.threads+(q.strong-p.strong))
      (total Thread.watched s.threads+(q.weak-p.weak))
      (total Thread.doomed s.threads+(q.doomed-p.doomed))
      (total Thread.last s.threads+(q.last-p.last))
      (total Thread.settling s.threads+(q.settling-p.settling)))
    (hflags : sh.mFlags = s.shared.mFlags) (hfault : sh.fault = s.shared.fault)
    (hobject : sh.object = s.shared.object ∨ ∀ u, u ≠ t → (s.threads u).last = 0)
    (hs : Sound M ⟨sh, Function.update s.threads t ((s.threads t).goto q)⟩ t) :
    Inv M k ⟨sh, Function.update s.threads t ((s.threads t).goto q)⟩ := by
  refine h.advanced (busy hp hne) ?_ hb hflags hfault hobject hs
  constructor <;>
    simp only [Thread.held, Thread.watched, Thread.doomed, Thread.last, Thread.settling,
      Thread.goto, hp] <;> ring

theorem Inv.gainStrong {sh : Shared} {p : Point} (h : Inv M k s) (hp : (s.threads t).point = p)
    (hne : p ≠ .idle)
    (hb : Balanced M k sh (total Thread.held s.threads+(1-p.strong))
      (total Thread.watched s.threads+(1-p.weak)) (total Thread.doomed s.threads+(-p.doomed))
      (total Thread.last s.threads+(-p.last)) (total Thread.settling s.threads+(-p.settling)))
    (hflags : sh.mFlags = s.shared.mFlags) (hfault : sh.fault = s.shared.fault)
    (hobject : sh.object = s.shared.object) :
    Inv M k ⟨sh, Function.update s.threads t (s.threads t).gainStrong⟩ := by
  refine h.advanced (busy hp hne) ?_ hb hflags hfault (.inl hobject) ?_
  · constructor <;>
      simp only [Thread.held, Thread.watched, Thread.doomed, Thread.last, Thread.settling,
        Thread.gainStrong, Thread.addStrong, Thread.goto, hp, Point.strong, Point.weak,
        Point.doomed, Point.last, Point.settling, Nat.cast_add, Nat.cast_one] <;> ring
  · simp [Sound, Thread.gainStrong]

theorem Inv.gainWeak {sh : Shared} {p : Point} (h : Inv M k s) (hp : (s.threads t).point = p)
    (hne : p ≠ .idle)
    (hb : Balanced M k sh (total Thread.held s.threads+(-p.strong))
      (total Thread.watched s.threads+(1-p.weak)) (total Thread.doomed s.threads+(-p.doomed))
      (total Thread.last s.threads+(-p.last)) (total Thread.settling s.threads+(-p.settling)))
    (hflags : sh.mFlags = s.shared.mFlags) (hfault : sh.fault = s.shared.fault)
    (hobject : sh.object = s.shared.object) :
    Inv M k ⟨sh, Function.update s.threads t (s.threads t).gainWeak⟩ := by
  refine h.advanced (busy hp hne) ?_ hb hflags hfault (.inl hobject) ?_
  · constructor <;>
      simp only [Thread.held, Thread.watched, Thread.doomed, Thread.last, Thread.settling,
        Thread.gainWeak, Thread.addWeak, Thread.goto, hp, Point.strong, Point.weak,
        Point.doomed, Point.last, Point.settling, Nat.cast_add, Nat.cast_one] <;> ring
  · simp [Sound, Thread.gainWeak]

omit [Fintype ι] in
theorem MayUse.goto {sh : Shared} {q : Point} (h : MayUse M s t)
    (hflags : sh.mFlags = s.shared.mFlags) (hobject : sh.object = s.shared.object) :
    MayUse M ⟨sh, Function.update s.threads t ((s.threads t).goto q)⟩ t := by
  have hreg : sh.regular M ↔ s.shared.regular M := by rw [Shared.regular, hflags, Shared.regular]
  rw [MayUse] at h ⊢
  simp only [Function.update_self, Thread.goto, hreg, hobject]
  refine h.imp_right (Or.imp_right fun ha => ⟨fun u hu => ?_, ha.2⟩)
  rw [← ha.1 u hu]
  exact Function.update_of_ne hu _ _

def moved (M : Modes) (agrees : Bool) (s : State ι) (t : ι) : State ι :=
  ⟨(advance M agrees s.shared (s.threads t)).1,
    Function.update s.threads t (advance M agrees s.shared (s.threads t)).2⟩

def Room (s : State ι) : Prop :=
  total Thread.held s.threads+1 < initialStrongValue ∧ total Thread.watched s.threads+1 < 2^31

theorem incWeak_inv {aim : Aim} {agrees : Bool} (h : Inv M k s) (hroom : Room s)
    (hp : (s.threads t).point = .incWeak aim) : Inv M k (moved M agrees s t) := by
  have hsound := h.sound t
  have hlastOf : (s.threads t).last = 0 := by simp [Thread.last, hp]
  rw [Sound, hp] at hsound
  have hready : total Thread.last s.threads = 0 ∧
      (0 < total Thread.watched s.threads ∨ s.shared.object = true) := by
    have hown : 0 < (s.threads t).strongs+(s.threads t).weaks →
        0 < total Thread.watched s.threads := by
      intro hpos
      have hpoint := (s.threads t).point.weak_nonneg
      refine watched_pos (t := t) ?_
      rw [Thread.watched]
      omega
    cases aim with
    | copy | promotion => exact ⟨h.ledger.exclusive (hown hsound), .inl (hown hsound)⟩
    | create | strong => exact (h.usable hsound hlastOf).2
  have hb := h.ledger.incWeak hroom.2 hready.1 hready.2
  simp only [moved, advance, hp]
  cases aim with
  | copy | create =>
    exact h.gainWeak hp (by simp) (by simpa using hb) rfl rfl rfl
  | strong force =>
    refine h.goto hp (by simp) (by simpa using hb) rfl rfl (.inl rfl) ?_
    rw [Sound]
    simp only [Function.update_self]
    exact MayUse.goto hsound rfl rfl
  | promotion =>
    refine h.goto hp (by simp) (by simpa using hb) rfl rfl (.inl rfl) ?_
    simp [Sound, Thread.goto]

theorem incStrong_inv {force agrees : Bool} (h : Inv M k s) (hroom : Room s)
    (hp : (s.threads t).point = .incStrong force) : Inv M k (moved M agrees s t) := by
  have hinit : initialStrongValue = 268435456 := by rfl
  have hsound := h.sound t
  rw [Sound, hp] at hsound
  have hwatched : 0 < total Thread.watched s.threads := watched_of_point (t := t) (by simp [hp])
  have hpos : s.shared.regular M → 0 < s.shared.mStrong :=
    fun hreg => h.strong_pos hsound hreg (by simp [Thread.doomed, hp])
  simp only [moved, advance, hp]
  split_ifs with hfirst hforce
  · have hb := h.ledger.takeStrong hroom.1 hwatched hpos
      (total Thread.settling s.threads+1) (by omega) (fun _ => by
        have hnonneg := total_nonneg settling_nonneg (f := s.threads)
        omega)
    refine h.goto hp (by simp) (by simpa using hb) rfl rfl (.inl rfl) ?_
    simp only [Sound, Function.update_self, Thread.goto]
    intro hreg
    have hs := h.ledger.strong
    have hfew := h.ledger.few
    refine ⟨?_, ?_⟩
    · rcases hsound with hown | ⟨hext, -⟩ | ⟨ha, -⟩
      · have hheld := held_pos (s := s) (t := t) (by
          rw [Thread.held, hp, Point.strong] <;> grind)
        omega
      · exact absurd hreg hext
      · intro u hu
        rw [← ha u hu]
        exact Function.update_of_ne hu _ _
    · rw [int32_eq] <;> omega
  · have hb := h.ledger.takeStrong hroom.1 hwatched hpos _ le_rfl (fun hf => absurd hf hfirst)
    refine h.goto hp (by simp) (by simpa using hb) rfl rfl (.inl rfl) ?_
    simp [Sound, Thread.goto]
  · have hb := h.ledger.takeStrong hroom.1 hwatched hpos _ le_rfl (fun hf => absurd hf hfirst)
    exact h.gainStrong hp (by simp) (by simpa using hb) rfl rfl rfl

theorem subtract_inv {agrees : Bool} (h : Inv M k s) (hp : (s.threads t).point = .subtract)
    (hhigh : initialStrongValue ≤ s.shared.mStrong) : Inv M k (moved M agrees s t) := by
  obtain ⟨hheld, hwatched⟩ := held_of_point (t := t) (s := s) (by simp [hp])
  have hb := h.ledger.settle hhigh hheld hwatched (total Thread.settling s.threads-1)
  simp only [moved, advance, hp]
  refine h.goto hp (by simp) (by simpa [← sub_eq_add_neg] using hb) rfl rfl (.inl rfl) ?_
  simp [Sound, Thread.goto]

theorem onFirstRef_inv {agrees : Bool} (h : Inv M k s) (hp : (s.threads t).point = .onFirstRef) :
    Inv M k (moved M agrees s t) := by
  have hb := h.ledger.hooks s.shared.fault (s.shared.firstRefs+1) s.shared.lastStrongRefs
    s.shared.lastWeakRefs
  simp only [moved, advance, hp]
  exact h.gainStrong hp (by simp) (by simpa using hb) rfl rfl rfl

theorem decStrong_inv {agrees : Bool} (h : Inv M k s) (hp : (s.threads t).point = .decStrong) :
    Inv M k (moved M agrees s t) := by
  obtain ⟨hheld, hwatched⟩ := held_of_point (t := t) (s := s) (by simp [hp])
  have hothers : initialStrongValue ≤ s.shared.mStrong → 1 < total Thread.held s.threads := by
    intro hhigh
    have hs := h.ledger.strong
    have hfew := h.ledger.few
    -- whoever is to settle the count holds another strong reference than this one
    have hrest := le_total (m := fun th => th.held-th.settling) (f := s.threads)
      (fun th => sub_nonneg.mpr (settling_le_held th)) t
    rw [total_sub] at hrest
    simp only [Thread.held, Thread.settling, hp] at hrest
    simp at hrest
    omega
  have hb := h.ledger.dropStrong hheld hwatched hothers
  simp only [moved, advance, hp]
  split_ifs with hone
  · rw [if_pos hone] at hb
    refine h.goto hp (by simp) (by simpa [← sub_eq_add_neg] using hb) rfl rfl (.inl rfl) ?_
    simp [Sound, Thread.goto]
  · rw [if_neg hone] at hb
    refine h.goto hp (by simp) (by simpa [← sub_eq_add_neg] using hb) rfl rfl (.inl rfl) ?_
    simp [Sound, Thread.goto]

theorem onLastStrongRef_inv {agrees : Bool} (hl : M.Lawful) (h : Inv M k s)
    (hp : (s.threads t).point = .onLastStrongRef) : Inv M k (moved M agrees s t) := by
  have hb := h.ledger.hooks s.shared.fault s.shared.firstRefs (s.shared.lastStrongRefs+1)
    s.shared.lastWeakRefs
  simp only [moved, advance, hp]
  split_ifs with hmask
  · have hreg := (hl.masked_iff _).mp hmask
    refine h.goto hp (by simp) (by simpa using hb) rfl rfl (.inl rfl) ?_
    simp only [Sound, Function.update_self, Thread.goto]
    exact hreg
  · have hext : ¬ s.shared.regular M := fun hreg => hmask ((hl.masked_iff _).mpr hreg)
    refine h.goto hp (by simp) (by simpa using hb.spared hext _) rfl rfl (.inl rfl) ?_
    simp [Sound, Thread.goto]

theorem destroy_inv {releases agrees : Bool} (hl : M.Lawful) (h : Inv M k s)
    (hp : (s.threads t).point = .destroy releases) : Inv M k (moved M agrees s t) := by
  have hinit : initialStrongValue = 268435456 := by rfl
  have hsound := h.sound t
  simp only [moved, advance, hp]
  cases releases with
  | true =>
    rw [Sound, hp] at hsound
    have hwatched : 0 < total Thread.watched s.threads := watched_of_point (t := t) (by simp [hp])
    have hdoomed : 0 < total Thread.doomed s.threads := by
      have hle := le_total doomed_nonneg (f := s.threads) t
      have hown : (s.threads t).doomed = 1 := by simp [Thread.doomed, hp]
      omega
    have hzero : s.shared.mStrong = 0 := by
      have hsingle := h.ledger.single hsound
      by_contra hne
      rw [if_neg (fun hand => hne hand.1)] at hsingle
      omega
    have hmask : s.shared.masked M = M.objectLifetimeStrong := (hl.masked_iff _).mpr hsound
    have hb := h.ledger.destroyStrong hsound hdoomed hwatched
    rw [if_neg (by rw [hzero, hinit]; decide), if_pos hmask]
    refine h.goto hp (by simp) (by simpa [destroyed, ← sub_eq_add_neg] using hb) rfl rfl ?_ ?_
    · refine .inr fun u _ => ?_
      have hle := le_total last_nonneg (f := s.threads) u
      have hnone := h.ledger.exclusive hwatched
      have hnonneg := last_nonneg (s.threads u)
      omega
    · simp [Sound, Thread.goto, destroyed]
  | false =>
    rw [Sound, hp] at hsound
    have hlast : (s.threads t).last = 1 := by simp [Thread.last, hp]
    obtain ⟨hone, hnone⟩ := h.nothing_left hlast
    have hothers := others_not_last h hlast
    split_ifs with hfresh hmask
    · have hb := h.ledger.destroyFresh hnone hfresh
      refine h.goto hp (by simp) (by simpa [destroyed, hone] using hb) rfl rfl (.inr hothers) ?_
      simp [Sound, Thread.goto, destroyed]
    · have hreg := (hl.masked_iff _).mp hmask
      exact absurd (h.unheld_fresh hreg hnone hsound) hfresh
    · have hext : ¬ s.shared.regular M := fun hreg => hmask ((hl.masked_iff _).mpr hreg)
      have hb := h.ledger.destroyKept hext hnone (by omega)
      refine h.goto hp (by simp) (by simpa using hb) rfl rfl (.inr hothers) ?_
      simp [Sound, Thread.goto]

theorem destroyWeak_inv {releases agrees : Bool} (h : Inv M k s)
    (hp : (s.threads t).point = .destroyWeak releases) : Inv M k (moved M agrees s t) := by
  have hsound := h.sound t
  simp only [moved, advance, hp]
  cases releases with
  | true =>
    rw [Sound, hp] at hsound
    exact hsound.elim
  | false =>
    rw [Sound, hp] at hsound
    have hlast : (s.threads t).last = 1 := by simp [Thread.last, hp]
    obtain ⟨hone, hnone⟩ := h.nothing_left hlast
    have hzero : s.shared.mWeak = 0 := h.ledger.weak.trans hnone
    have hb := h.ledger.deleteRefs hnone hsound
    rw [if_pos hzero]
    refine h.goto hp (by simp) (by simpa [destroyed, hone] using hb) rfl rfl (.inl rfl) ?_
    simp [Sound, Thread.goto, destroyed]

theorem decWeak_inv {agrees : Bool} (h : Inv M k s) (hp : (s.threads t).point = .decWeak) :
    Inv M k (moved M agrees s t) := by
  have hwatched : 0 < total Thread.watched s.threads := watched_of_point (t := t) (by simp [hp])
  have hb := h.ledger.dropWeak hwatched
  simp only [moved, advance, hp]
  split_ifs with hone
  · rw [if_pos hone] at hb
    refine h.goto hp (by simp) (by simpa [← sub_eq_add_neg] using hb) rfl rfl (.inl rfl) ?_
    simp only [Sound, Function.update_self, Thread.goto]
    exact fun hext => h.ledger.kept hext hwatched
  · rw [if_neg hone] at hb
    refine h.goto hp (by simp) (by simpa [← sub_eq_add_neg] using hb) rfl rfl (.inl rfl) ?_
    simp [Sound, Thread.goto]

theorem lastWeak_inv {agrees : Bool} (hl : M.Lawful) (h : Inv M k s)
    (hp : (s.threads t).point = .lastWeak) :
    Inv M k (moved M agrees s t) := by
  have hsound := h.sound t
  rw [Sound, hp] at hsound
  have hlast : (s.threads t).last = 1 := by simp [Thread.last, hp]
  obtain ⟨hone, hnone⟩ := h.nothing_left hlast
  have hrefs : s.shared.refs = true := h.ledger.allocated (by omega)
  have hinit : initialStrongValue = 268435456 := by rfl
  simp only [moved, advance, hp]
  split_ifs with hreg hfresh hmask
  · refine h.goto hp (by simp) (by simpa [Ledger] using h.ledger) rfl rfl (.inl rfl) ?_
    simp only [Sound, Function.update_self, Thread.goto]
    cases hobject : s.shared.object with
    | true => rfl
    | false =>
      rcases h.ledger.dead hreg hobject with hzero | hgone
      · omega
      · rw [hrefs] at hgone
        cases hgone
  · have hobject : s.shared.object = false := by
      cases hobject : s.shared.object with
      | false => rfl
      | true => exact absurd (h.unheld_fresh hreg hnone hobject) hfresh
    have hb := h.ledger.deleteRefs hnone hobject
    refine h.goto hp (by simp) (by simpa [hone] using hb) rfl rfl (.inl rfl) ?_
    simp [Sound, Thread.goto]
  · have hb := h.ledger.hooks s.shared.fault s.shared.firstRefs s.shared.lastStrongRefs
      (s.shared.lastWeakRefs+1)
    refine h.goto hp (by simp) (by simpa using hb) rfl rfl (.inl rfl) ?_
    simp only [Sound, Function.update_self, Thread.goto]
    exact hsound hreg
  · refine absurd ?_ hmask
    rw [Shared.masked, hl.mask]
    exact (hl.bit _).resolve_left hreg

theorem Inv.stays {p q : Point} (h : Inv M k s) (hp : (s.threads t).point = p) (hne : p ≠ .idle)
    (hstrong : q.strong = p.strong) (hweak : q.weak = p.weak) (hdoomed : q.doomed = p.doomed)
    (hlast : q.last = p.last) (hsettling : q.settling = p.settling)
    (hs : Sound M ⟨s.shared, Function.update s.threads t ((s.threads t).goto q)⟩ t) :
    Inv M k ⟨s.shared, Function.update s.threads t ((s.threads t).goto q)⟩ := by
  refine h.goto hp hne ?_ rfl rfl (.inl rfl) hs
  rw [hstrong, hweak, hdoomed, hlast, hsettling]
  simp only [sub_self, add_zero]
  exact h.ledger

theorem promote_inv {agrees : Bool} (h : Inv M k s) (hp : (s.threads t).point = .promote) :
    Inv M k (moved M agrees s t) := by
  simp only [moved, advance, hp, promoteAt]
  split_ifs with hpos hreg hlow
  · refine h.stays hp (by simp) rfl rfl rfl rfl rfl ?_
    simpa only [Sound, Function.update_self, Thread.goto] using hpos
  · refine h.stays hp (by simp) rfl rfl rfl rfl rfl ?_
    simp [Sound, Thread.goto]
  · refine h.stays hp (by simp) rfl rfl rfl rfl rfl ?_
    simpa only [Sound, Function.update_self, Thread.goto] using not_le.mp hlow
  · refine h.stays hp (by simp) rfl rfl rfl rfl rfl ?_
    simpa only [Sound, Function.update_self, Thread.goto] using hreg

theorem Inv.promoted {p q : Point} (h : Inv M k s) (hroom : Room s)
    (hp : (s.threads t).point = p) (hne : p ≠ .idle) (hpoint : p.strong = 0 ∧ p.weak = 1 ∧
      p.doomed = 0 ∧ p.last = 0 ∧ p.settling = 0) (hq : q = .settle ∨ q = .dropUnneeded)
    (hpos : s.shared.regular M → 0 < s.shared.mStrong) :
    Inv M k ⟨{ s.shared with mStrong := int32 (s.shared.mStrong+1) },
      Function.update s.threads t ((s.threads t).goto q)⟩ := by
  obtain ⟨hstrong, hweak, hdoomed, hlast, hsettling⟩ := hpoint
  have hwatched : 0 < total Thread.watched s.threads := watched_of_point (t := t) (by
    rw [hp]
    omega)
  have hnonneg := total_nonneg settling_nonneg (f := s.threads)
  have hb := h.ledger.takeStrong hroom.1 hwatched hpos (total Thread.settling s.threads+1)
    (by omega) (fun _ => by omega)
  refine h.goto hp hne ?_ rfl rfl (.inl rfl) ?_
  · rw [hstrong, hweak, hdoomed, hlast, hsettling]
    rcases hq with rfl | rfl <;> simpa using hb
  · rcases hq with rfl | rfl <;> simp [Sound, Thread.goto]

theorem promoted_cases (c : ℤ) : promoted c = .settle ∨ promoted c = .dropUnneeded := by
  rw [promoted]
  split_ifs
  · exact .inr rfl
  · exact .inl rfl

theorem promoteFrom_inv {curCount : ℤ} {agrees : Bool} (h : Inv M k s) (hroom : Room s)
    (hp : (s.threads t).point = .promoteFrom curCount) : Inv M k (moved M agrees s t) := by
  have hsound := h.sound t
  rw [Sound, hp] at hsound
  simp only [moved, advance, hp]
  split_ifs with heq
  · rw [← heq] at hsound ⊢
    exact h.promoted hroom hp (by simp) (by simp) (.inl rfl) (fun _ => hsound.1)
  · refine h.stays hp (by simp) rfl rfl rfl rfl rfl ?_
    simp [Sound, Thread.goto]

theorem promoteFirst_inv {curCount : ℤ} {agrees : Bool} (h : Inv M k s) (hroom : Room s)
    (hp : (s.threads t).point = .promoteFirst curCount) : Inv M k (moved M agrees s t) := by
  have hsound := h.sound t
  rw [Sound, hp] at hsound
  simp only [moved, advance, hp]
  split_ifs with heq
  · rw [← heq] at hsound ⊢
    exact h.promoted hroom hp (by simp) (by simp) (promoted_cases _) (fun _ => hsound)
  · refine h.stays hp (by simp) rfl rfl rfl rfl rfl ?_
    simp [Sound, Thread.goto]

theorem promoteAgain_inv {agrees : Bool} (h : Inv M k s)
    (hp : (s.threads t).point = .promoteAgain) : Inv M k (moved M agrees s t) := by
  simp only [moved, advance, hp]
  split_ifs with hpos
  · refine h.stays hp (by simp) rfl rfl rfl rfl rfl ?_
    simpa only [Sound, Function.update_self, Thread.goto] using hpos
  · refine h.stays hp (by simp) rfl rfl rfl rfl rfl ?_
    simp [Sound, Thread.goto]

theorem onIncStrongAttempted_inv {agrees : Bool} (h : Inv M k s)
    (hp : (s.threads t).point = .onIncStrongAttempted) : Inv M k (moved M agrees s t) := by
  have hsound := h.sound t
  rw [Sound, hp] at hsound
  simp only [moved, advance, hp]
  split_ifs
  · refine h.stays hp (by simp) rfl rfl rfl rfl rfl ?_
    simpa only [Sound, Function.update_self, Thread.goto] using hsound
  · refine h.stays hp (by simp) rfl rfl rfl rfl rfl ?_
    simp [Sound, Thread.goto]

theorem revive_inv {agrees : Bool} (h : Inv M k s) (hroom : Room s)
    (hp : (s.threads t).point = .revive) : Inv M k (moved M agrees s t) := by
  have hsound := h.sound t
  rw [Sound, hp] at hsound
  simp only [moved, advance, hp]
  exact h.promoted hroom hp (by simp) (by simp) (promoted_cases _) (fun hreg => absurd hreg hsound)

theorem dropUnneeded_inv {agrees : Bool} (h : Inv M k s)
    (hp : (s.threads t).point = .dropUnneeded) : Inv M k (moved M agrees s t) := by
  have hb := h.ledger.hooks s.shared.fault s.shared.firstRefs (s.shared.lastStrongRefs+1)
    s.shared.lastWeakRefs
  simp only [moved, advance, hp]
  refine h.goto hp (by simp) (by simpa using hb) rfl rfl (.inl rfl) ?_
  simp [Sound, Thread.goto]

theorem settle_inv {agrees : Bool} (h : Inv M k s) (hp : (s.threads t).point = .settle) :
    Inv M k (moved M agrees s t) := by
  simp only [moved, advance, hp]
  split_ifs with hhigh
  · refine h.stays hp (by simp) rfl rfl rfl rfl rfl ?_
    simpa only [Sound, Function.update_self, Thread.goto] using hhigh
  · have hb := h.ledger.settled (not_le.mp hhigh) (total Thread.settling s.threads-1)
    exact h.gainStrong hp (by simp) (by simpa [← sub_eq_add_neg] using hb) rfl rfl rfl

theorem settleFrom_inv {curCount : ℤ} {agrees : Bool} (h : Inv M k s)
    (hp : (s.threads t).point = .settleFrom curCount) : Inv M k (moved M agrees s t) := by
  have hsound := h.sound t
  rw [Sound, hp] at hsound
  obtain ⟨hheld, hwatched⟩ := held_of_point (t := t) (s := s) (by simp [hp])
  simp only [moved, advance, hp]
  split_ifs with heq
  · rw [← heq] at hsound ⊢
    have hb := h.ledger.settle hsound hheld hwatched (total Thread.settling s.threads-1)
    exact h.gainStrong hp (by simp) (by simpa [← sub_eq_add_neg] using hb) rfl rfl rfl
  · refine h.stays hp (by simp) rfl rfl rfl rfl rfl ?_
    simp [Sound, Thread.goto]

theorem incWeakAttempt_inv {agrees : Bool} (h : Inv M k s)
    (hp : (s.threads t).point = .incWeakAttempt) : Inv M k (moved M agrees s t) := by
  have hsound := h.sound t
  rw [Sound, hp] at hsound
  simp only [moved, advance, hp]
  split_ifs with hpos
  · refine h.stays hp (by simp) rfl rfl rfl rfl rfl ?_
    simpa only [Sound, Function.update_self, Thread.goto] using hsound
  · refine h.stays hp (by simp) rfl rfl rfl rfl rfl ?_
    simp [Sound, Thread.goto]

theorem incWeakFrom_inv {curCount : ℤ} {agrees : Bool} (h : Inv M k s) (hroom : Room s)
    (hp : (s.threads t).point = .incWeakFrom curCount) : Inv M k (moved M agrees s t) := by
  have hsound := h.sound t
  rw [Sound, hp] at hsound
  have hwatched : 0 < total Thread.watched s.threads := by
    refine watched_pos (t := t) ?_
    have hpoint := (s.threads t).point.weak_nonneg
    rw [Thread.watched]
    omega
  simp only [moved, advance, hp]
  split_ifs with heq
  · rw [← heq]
    have hb := h.ledger.incWeak hroom.2 (h.ledger.exclusive hwatched) (.inl hwatched)
    exact h.gainWeak hp (by simp) (by simpa using hb) rfl rfl rfl
  · refine h.stays hp (by simp) rfl rfl rfl rfl rfl ?_
    simpa only [Sound, Function.update_self, Thread.goto] using hsound

end Wingray.RefBase
