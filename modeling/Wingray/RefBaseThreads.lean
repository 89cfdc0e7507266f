import Wingray.GuardedRun
import Wingray.Parties
import Wingray.RefBaseLedger

/-!
# The threads that use an object

What each thread has of the counts at each point of a method, and that every step of a
disciplined thread keeps the counts equal to what all of them have between them.
-/

set_option autoImplicit false

namespace Wingray.RefBase
open Parties

@[simp] def Point.strong : Point → ℤ
  | .subtract | .onFirstRef | .decStrong | .dropUnneeded | .settle | .settleFrom _ => 1
  | _ => 0

@[simp] def Point.weak : Point → ℤ
  | .incStrong _ | .subtract | .onFirstRef | .decStrong | .onLastStrongRef | .destroy true
  | .destroyWeak true | .decWeak | .promote | .promoteFrom _ | .promoteFirst _ | .promoteAgain
  | .onIncStrongAttempted | .revive | .dropUnneeded | .settle | .settleFrom _ => 1
  | _ => 0

/-- On the way from the last strong reference to the destructor. -/
@[simp] def Point.doomed : Point → ℤ
  | .onLastStrongRef | .destroy true => 1
  | _ => 0

/-- Behind the last reference of all. -/
@[simp] def Point.last : Point → ℤ
  | .lastWeak | .destroy false | .destroyWeak false => 1
  | _ => 0

/-- About to take the initial value out of the strong count. -/
@[simp] def Point.settling : Point → ℤ
  | .subtract | .dropUnneeded | .settle | .settleFrom _ => 1
  | _ => 0

def Thread.held (th : Thread) : ℤ := th.strongs+th.point.strong

def Thread.watched (th : Thread) : ℤ := th.strongs+th.weaks+th.point.weak

def Thread.doomed (th : Thread) : ℤ := th.point.doomed

def Thread.last (th : Thread) : ℤ := th.point.last

def Thread.settling (th : Thread) : ℤ := th.point.settling

theorem Point.strong_nonneg (p : Point) : 0 ≤ p.strong := by
  unfold Point.strong
  split <;> decide

theorem Point.weak_nonneg (p : Point) : 0 ≤ p.weak := by
  unfold Point.weak
  split <;> decide

theorem Point.strong_le_weak (p : Point) : p.strong ≤ p.weak := by
  unfold Point.strong Point.weak
  grind

theorem held_nonneg (th : Thread) : 0 ≤ th.held := by
  have hp := th.point.strong_nonneg
  rw [Thread.held]
  omega

theorem watched_nonneg (th : Thread) : 0 ≤ th.watched := by
  have hp := th.point.weak_nonneg
  rw [Thread.watched]
  omega

theorem held_le_watched (th : Thread) : th.held ≤ th.watched := by
  have hp := th.point.strong_le_weak
  rw [Thread.held, Thread.watched]
  omega

theorem doomed_nonneg (th : Thread) : 0 ≤ th.doomed := by
  unfold Thread.doomed Point.doomed
  split <;> decide

theorem doomed_le_watched (th : Thread) : th.doomed ≤ th.watched := by
  have hpoint : th.point.doomed ≤ th.point.weak := by
    unfold Point.doomed Point.weak
    grind
  rw [Thread.doomed, Thread.watched]
  omega

theorem last_nonneg (th : Thread) : 0 ≤ th.last := by
  unfold Thread.last Point.last
  split <;> decide

theorem settling_nonneg (th : Thread) : 0 ≤ th.settling := by
  unfold Thread.settling Point.settling
  split <;> decide

theorem settling_le_held (th : Thread) : th.settling ≤ th.held := by
  have hpoint : th.point.settling ≤ th.point.strong := by
    unfold Point.settling Point.strong
    grind
  rw [Thread.settling, Thread.held]
  omega

variable {ι : Type} [Fintype ι]

/-- The counts against the threads. -/
def Ledger (M : Modes) (k : Known) (s : Shared) (threads : ι → Thread) : Prop :=
  Balanced M k s (total Thread.held threads) (total Thread.watched threads)
    (total Thread.doomed threads) (total Thread.last threads) (total Thread.settling threads)

/-- What a thread may rely on at its point. -/
def Sound (M : Modes) (s : State ι) (t : ι) : Prop :=
  match (s.threads t).point with
  | .incWeak .copy | .incWeak .promotion | .incWeakAttempt | .incWeakFrom _ =>
    0 < (s.threads t).strongs+(s.threads t).weaks
  | .incWeak .create | .incWeak (.strong _) | .incStrong _ => MayUse M s t
  | .subtract => s.shared.regular M → Alone s t ∧ initialStrongValue ≤ s.shared.mStrong
  | .destroy true => s.shared.regular M
  | .destroy false => s.shared.object = true
  | .destroyWeak true => False
  | .destroyWeak false => s.shared.object = false
  | .lastWeak => ¬ s.shared.regular M → s.shared.object = true
  | .promoteFrom curCount => 0 < curCount ∧ curCount ≠ initialStrongValue
  | .promoteFirst curCount => 0 < curCount
  | .onIncStrongAttempted | .revive => ¬ s.shared.regular M
  | .settleFrom curCount => initialStrongValue ≤ curCount
  | _ => True

structure Inv (M : Modes) (k : Known) (s : State ι) : Prop where
  ledger : Ledger M k s.shared s.threads
  sound : ∀ t, Sound M s t
  quiet : s.shared.fault = false

variable {M : Modes} {k : Known} {s : State ι} {t u : ι}

theorem Alone.total {m : Thread → ℤ} (h : Alone s t) (hm : m Thread.empty = 0) :
    total m s.threads = m (s.threads t) :=
  total_alone (fun u hu => by rw [h u hu, hm])

theorem held_pos (th : 0 < (s.threads t).held) :
    0 < total Thread.held s.threads ∧ 0 < total Thread.watched s.threads := by
  have hheld := le_total held_nonneg (f := s.threads) t
  have hwatched := le_total watched_nonneg (f := s.threads) t
  have hle := held_le_watched (s.threads t)
  omega

theorem watched_pos (hw : 0 < (s.threads t).watched) :
    0 < total Thread.watched s.threads := by
  have hwatched := le_total watched_nonneg (f := s.threads) t
  omega

/-- A thread that may use the object finds it, and nobody behind its last reference. -/
theorem Inv.usable (h : Inv M k s) (hu : MayUse M s t) (hl : (s.threads t).last = 0) :
    s.shared.object = true ∧ total Thread.last s.threads = 0 ∧
      (0 < total Thread.watched s.threads ∨ s.shared.object = true) := by
  have hobject : s.shared.object = true := by
    rcases hu with hs | ⟨hext, hr⟩ | ⟨-, ho⟩
    · have hpoint := (s.threads t).point.strong_nonneg
      obtain ⟨hheld, hwatched⟩ := held_pos (s := s) (t := t) (by
        rw [Thread.held]
        omega)
      exact h.ledger.object_held hheld hwatched
    · have hpoint := (s.threads t).point.weak_nonneg
      exact h.ledger.kept hext (watched_pos (t := t) (by rw [Thread.watched]; omega))
    · exact ho
  refine ⟨hobject, ?_, .inr hobject⟩
  have hpoint := (s.threads t).point.weak_nonneg
  rcases hu with hs | ⟨-, hr⟩ | ⟨ha, -⟩
  · exact h.ledger.exclusive (watched_pos (t := t) (by rw [Thread.watched]; omega))
  · exact h.ledger.exclusive (watched_pos (t := t) (by rw [Thread.watched]; omega))
  · rw [ha.total (by rfl), hl]

omit [Fintype ι] in
theorem busy {p : Point} (hp : (s.threads t).point = p) (hne : p ≠ .idle) :
    s.threads t ≠ Thread.empty := by
  intro he
  rw [he] at hp
  exact hne hp.symm

theorem watched_of_point (hp : 0 < (s.threads t).point.weak) :
    0 < total Thread.watched s.threads := by
  refine watched_pos (t := t) ?_
  rw [Thread.watched]
  omega

theorem held_of_point (hp : 0 < (s.threads t).point.strong) :
    0 < total Thread.held s.threads ∧ 0 < total Thread.watched s.threads := by
  refine held_pos (t := t) ?_
  rw [Thread.held]
  omega

theorem Inv.strong_pos (h : Inv M k s) (hu : MayUse M s t) (hreg : s.shared.regular M)
    (hd : (s.threads t).doomed = 0) : 0 < s.shared.mStrong := by
  have hinit : initialStrongValue = 268435456 := by rfl
  have hs := h.ledger.strong
  have hfew := h.ledger.few
  rcases hu with hpos | ⟨hext, -⟩ | ⟨ha, hobject⟩
  · have hpoint := (s.threads t).point.strong_nonneg
    have hheld := held_pos (s := s) (t := t) (by
      rw [Thread.held]
      omega)
    omega
  · exact absurd hreg hext
  · have hsingle := h.ledger.single hreg
    rw [ha.total (by rfl), hd] at hsingle
    have hne : s.shared.mStrong ≠ 0 := by
      intro hzero
      rw [if_pos ⟨hzero, hobject⟩] at hsingle
      exact zero_ne_one hsingle
    omega

theorem Inv.nothing_left (h : Inv M k s) (hp : (s.threads t).last = 1) :
    total Thread.last s.threads = 1 ∧ total Thread.watched s.threads = 0 := by
  have hle := le_total last_nonneg (f := s.threads) t
  have honce := h.ledger.once
  have hexcl := h.ledger.exclusive
  have hnonneg := h.ledger.fewWeak
  have hone : total Thread.last s.threads = 1 := by omega
  refine ⟨hone, ?_⟩
  by_contra hne
  have hzero := hexcl (by omega)
  omega

theorem Inv.unheld_fresh (h : Inv M k s) (hreg : s.shared.regular M)
    (hnone : total Thread.watched s.threads = 0) (hobject : s.shared.object = true) :
    s.shared.mStrong = initialStrongValue := by
  have hheld := total_le held_le_watched (f := s.threads)
  have hdoomed := total_le doomed_le_watched (f := s.threads)
  have hheld' := total_nonneg held_nonneg (f := s.threads)
  have hdoomed' := total_nonneg doomed_nonneg (f := s.threads)
  exact h.ledger.last_state hreg (by omega) (by omega) hobject

variable [DecidableEq ι]

theorem others_not_last (h : Inv M k s) (hp : (s.threads t).last = 1) :
    ∀ u, u ≠ t → (s.threads u).last = 0 := by
  intro u hu
  have hpair := pair_le_total last_nonneg (f := s.threads) hu
  have hnonneg := last_nonneg (s.threads u)
  have honce := h.ledger.once
  omega

omit [Fintype ι] [DecidableEq ι] in
/-- What a thread relies on is not taken away while it keeps its references, unless it
relies on being the only one. -/
theorem Sound.kept {s' : State ι} (hs : Sound M s u) (hnot : ¬ Alone s u)
    (hpoint : (s'.threads u).point = (s.threads u).point)
    (hstrongs : (s.threads u).strongs ≤ (s'.threads u).strongs)
    (hweaks : (s.threads u).weaks ≤ (s'.threads u).weaks)
    (hflags : s'.shared.mFlags = s.shared.mFlags)
    (hobject : s'.shared.object = s.shared.object ∨ (s.threads u).last = 0) : Sound M s' u := by
  have hreg : s'.shared.regular M ↔ s.shared.regular M := by
    rw [Shared.regular, hflags, Shared.regular]
  have hmore : 0 < (s.threads u).strongs+(s.threads u).weaks →
      0 < (s'.threads u).strongs+(s'.threads u).weaks := by omega
  have huse : MayUse M s u → MayUse M s' u := by
    rintro (hpos | ⟨hext, hpos⟩ | ⟨ha, -⟩)
    · exact .inl (by omega)
    · exact .inr (.inl ⟨fun hr => hext (hreg.mp hr), hmore hpos⟩)
    · exact absurd ha hnot
  unfold Sound at hs ⊢
  rw [hpoint]
  split at hs <;> simp_all [Thread.last, Point.last]

omit [Fintype ι] in
theorem Sound.other {sh : Shared} {th : Thread} (hs : Sound M s u) (hu : u ≠ t)
    (ht : s.threads t ≠ Thread.empty) (hflags : sh.mFlags = s.shared.mFlags)
    (hobject : sh.object = s.shared.object ∨ (s.threads u).last = 0) :
    Sound M ⟨sh, Function.update s.threads t th⟩ u := by
  have hsame : Function.update s.threads t th u = s.threads u := by
    rw [Function.update_of_ne hu]
  have hnot : ¬ Alone s u := fun ha => ht (ha t hu.symm)
  refine hs.kept hnot ?_ ?_ ?_ hflags hobject <;> simp only [hsame, le_refl]

end Wingray.RefBase
