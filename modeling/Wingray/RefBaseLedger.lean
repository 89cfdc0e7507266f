import Wingray.RefBase

/-!
# The counts of an object and its references

The two counts and the two allocations against what the threads have between them: the
strong references held, all the references watched, and the threads that are about to
destroy the object, to delete its `weakref_impl`, or to take the initial value out of
the strong count.
-/

set_option autoImplicit false

namespace Wingray.RefBase

theorem int32_eq {x : ℤ} (hlow : -2^31 ≤ x) (hhigh : x < 2^31) : int32 x = x := by
  rw [int32]
  apply Int.bmod_eq_of_le <;> omega

/-- The header's constants as they are meant. -/
structure Modes.Lawful (M : Modes) : Prop where
  mask : M.objectLifetimeMask = M.objectLifetimeWeak
  bit : ∀ flags, flags &&& M.objectLifetimeWeak = M.objectLifetimeStrong ∨
    flags &&& M.objectLifetimeWeak = M.objectLifetimeWeak
  distinct : M.objectLifetimeStrong ≠ M.objectLifetimeWeak

def modes : Modes := ⟨0, 1, 1⟩

theorem modes_lawful : modes.Lawful where
  mask := rfl
  bit := by
    intro flags
    have hlow : (flags &&& 1#32).toNat = flags.toNat%2 := by
      rw [BitVec.toNat_and]
      exact Nat.and_one_is_mod _
    rcases Nat.mod_two_eq_zero_or_one flags.toNat with hzero | hone
    · exact .inl (BitVec.eq_of_toNat_eq (hlow.trans hzero))
    · exact .inr (BitVec.eq_of_toNat_eq (hlow.trans hone))
  distinct := by decide

theorem Modes.Lawful.masked_iff {M : Modes} (hl : M.Lawful) (sh : Shared) :
    sh.masked M = M.objectLifetimeStrong ↔ sh.regular M := by
  rw [Shared.masked, hl.mask, Shared.regular]

/-- What is known of an object that nobody took a reference to, or no strong one. -/
structure Known where
  unused : Prop
  unowned : Prop

structure Balanced (M : Modes) (k : Known) (s : Shared) (held watched doomed last settling : ℤ) :
    Prop where
  strong : s.mStrong = held ∨
    s.mStrong = held+initialStrongValue ∧ (held = 0 ∨ 0 < settling)
  weak : s.mWeak = watched
  few : 0 ≤ held ∧ held < initialStrongValue
  fewWeak : 0 ≤ watched ∧ watched < 2^31
  once : 0 ≤ last ∧ last ≤ 1
  exclusive : 0 < watched → last = 0
  allocated : 0 < watched+last → s.refs = true
  gone : s.refs = false → s.object = false
  fresh : watched+last = 0 → s.refs = true →
    k.unused ∧ s.object = true ∧ s.mStrong = initialStrongValue
  first : s.mStrong = initialStrongValue → k.unowned
  single : s.regular M → doomed = if s.mStrong = 0 ∧ s.object = true then 1 else 0
  dead : s.regular M → s.object = false → s.mStrong = 0 ∨ s.refs = false
  kept : ¬ s.regular M → 0 < watched → s.object = true

variable {M : Modes} {k : Known} {s : Shared} {held watched doomed last settling : ℤ}

theorem Balanced.count_pos (h : Balanced M k s held watched doomed last settling)
    (hwatched : 0 < watched) : watched+last ≠ 0 := by
  have ho := h.once
  omega

theorem Balanced.incWeak (h : Balanced M k s held watched doomed last settling)
    (hfew : watched+1 < 2^31) (hlast : last = 0) (hobject : 0 < watched ∨ s.object = true) :
    Balanced M k { s with mWeak := int32 (s.mWeak+1) } held (watched+1) doomed last settling := by
  have hw := h.weak
  have hf := h.fewWeak
  have hnext : int32 (s.mWeak+1) = watched+1 := by
    rw [int32_eq] <;> omega
  -- whoever takes the first weak reference still has the object
  have hrefs : s.refs = true := by
    rcases hobject with hpos | hobj
    · exact h.allocated (by omega)
    · by_contra hno
      rw [h.gone (Bool.eq_false_iff.mpr hno)] at hobj
      cases hobj
  exact { h with
    weak := hnext
    fewWeak := ⟨by omega, hfew⟩
    exclusive := fun _ => hlast
    allocated := fun _ => hrefs
    fresh := fun hnone => by omega
    kept := fun hext _ => hobject.elim (h.kept hext) id }

theorem Balanced.takeStrong (h : Balanced M k s held watched doomed last settling)
    (hfew : held+1 < initialStrongValue) (hwatched : 0 < watched)
    (hpos : s.regular M → 0 < s.mStrong) (settling' : ℤ) (hle : settling ≤ settling')
    (hfirst : s.mStrong = initialStrongValue → 0 < settling') :
    Balanced M k { s with mStrong := int32 (s.mStrong+1) } (held+1) watched doomed last
      settling' := by
  have hinit : initialStrongValue = 268435456 := by rfl
  have hs := h.strong
  have hf := h.few
  have hnext : int32 (s.mStrong+1) = s.mStrong+1 := by
    rw [int32_eq] <;> omega
  have hcount : s.mStrong+1 = held+1 ∨
      s.mStrong+1 = held+1+initialStrongValue ∧ (held+1 = 0 ∨ 0 < settling') := by
    rcases hs with heq | ⟨heq, hzero | hsettling⟩
    · exact .inl (by omega)
    · exact .inr ⟨by omega, .inr (hfirst (by omega))⟩
    · exact .inr ⟨by omega, .inr (by omega)⟩
  exact { h with
    strong := by simpa only [hnext] using hcount
    few := ⟨by omega, hfew⟩
    fresh := fun hnone => absurd hnone (h.count_pos hwatched)
    first := fun heq => by
      simp only [hnext] at heq
      omega
    single := fun hreg => by
      have hp := hpos hreg
      rw [h.single hreg, if_neg (by omega), if_neg]
      simp only [hnext]
      omega
    dead := fun hreg hobj => by
      have hp := hpos hreg
      exact .inr ((h.dead hreg hobj).resolve_left (by omega)) }

theorem Balanced.settle (h : Balanced M k s held watched doomed last settling)
    (hhigh : initialStrongValue ≤ s.mStrong) (hheld : 0 < held) (hwatched : 0 < watched)
    (settling' : ℤ) :
    Balanced M k { s with mStrong := int32 (s.mStrong-initialStrongValue) } held watched doomed last
      settling' := by
  have hinit : initialStrongValue = 268435456 := by rfl
  have hs := h.strong
  have hf := h.few
  have hnext : int32 (s.mStrong-initialStrongValue) = held := by
    rw [int32_eq] <;> omega
  exact { h with
    strong := .inl hnext
    fresh := fun hnone => absurd hnone (h.count_pos hwatched)
    first := fun heq => by
      simp only [hnext] at heq
      omega
    single := fun hreg => by
      rw [h.single hreg, if_neg (by omega), if_neg]
      simp only [hnext]
      omega
    dead := fun hreg hobj => .inr ((h.dead hreg hobj).resolve_left (by omega)) }

theorem Balanced.settled (h : Balanced M k s held watched doomed last settling)
    (hlow : s.mStrong < initialStrongValue) (settling' : ℤ) :
    Balanced M k s held watched doomed last settling' := by
  have hs := h.strong
  have hf := h.few
  exact { h with strong := .inl (by omega) }

/-- A regular object is there as long as its strong count is not zero. -/
theorem Balanced.object_of_count (h : Balanced M k s held watched doomed last settling)
    (hreg : s.regular M) (hwatched : 0 < watched) (hne : s.mStrong ≠ 0) : s.object = true := by
  by_contra hno
  rcases h.dead hreg (Bool.eq_false_iff.mpr hno) with hzero | hrefs
  · exact hne hzero
  · rw [h.allocated (by have ho := h.once; omega)] at hrefs
    cases hrefs

theorem Balanced.dropStrong (h : Balanced M k s held watched doomed last settling)
    (hheld : 0 < held) (hwatched : 0 < watched)
    (hothers : initialStrongValue ≤ s.mStrong → 1 < held) :
    Balanced M k { s with mStrong := int32 (s.mStrong-1) } (held-1) watched
      (doomed+if s.mStrong = 1 then 1 else 0) last settling := by
  have hinit : initialStrongValue = 268435456 := by rfl
  have hs := h.strong
  have hf := h.few
  have hnext : int32 (s.mStrong-1) = s.mStrong-1 := by
    rw [int32_eq] <;> omega
  have hcount : s.mStrong-1 = held-1 ∨
      s.mStrong-1 = held-1+initialStrongValue ∧ (held-1 = 0 ∨ 0 < settling) := by
    rcases hs with heq | ⟨heq, hzero | hsettling⟩
    · exact .inl (by omega)
    · exact absurd hzero hheld.ne'
    · exact .inr ⟨by omega, .inr hsettling⟩
  have hobj : s.regular M → s.object = true :=
    fun hreg => h.object_of_count hreg hwatched (by omega)
  exact { h with
    strong := by simpa only [hnext] using hcount
    few := ⟨by omega, by omega⟩
    fresh := fun hnone => absurd hnone (h.count_pos hwatched)
    first := fun heq => by
      simp only [hnext] at heq
      have hmany := hothers (by omega)
      omega
    single := fun hreg => by
      have hd := h.single hreg
      rw [if_neg (by omega)] at hd
      simp only [hnext, hobj hreg, and_true, hd, zero_add, sub_eq_zero]
    dead := fun hreg hno => by
      have hyes := hobj hreg
      simp only [hyes] at hno
      cases hno }

theorem Balanced.destroyStrong (h : Balanced M k s held watched doomed last settling)
    (hreg : s.regular M) (hdoomed : 0 < doomed) (hwatched : 0 < watched) :
    Balanced M k { s with object := false } held watched (doomed-1) last settling := by
  have hd := h.single hreg
  have hzero : s.mStrong = 0 ∧ s.object = true := by
    by_contra hno
    rw [if_neg hno] at hd
    omega
  rw [if_pos hzero] at hd
  exact { h with
    gone := fun _ => rfl
    fresh := fun hnone => absurd hnone (h.count_pos hwatched)
    single := fun _ => by simp [hd]
    dead := fun _ _ => .inl hzero.1
    kept := fun hext => absurd hreg hext }

theorem Balanced.spared (h : Balanced M k s held watched doomed last settling)
    (hext : ¬ s.regular M) (doomed' : ℤ) :
    Balanced M k s held watched doomed' last settling :=
  { h with single := fun hreg => absurd hreg hext }

theorem Balanced.dropWeak (h : Balanced M k s held watched doomed last settling)
    (hwatched : 0 < watched) :
    Balanced M k { s with mWeak := int32 (s.mWeak-1) } held (watched-1) doomed
      (last+if s.mWeak = 1 then 1 else 0) settling := by
  have hw := h.weak
  have hf := h.fewWeak
  have hlast := h.exclusive hwatched
  have hnext : int32 (s.mWeak-1) = watched-1 := by
    rw [int32_eq] <;> omega
  rw [hlast, hw, zero_add]
  -- the last one has the `weakref_impl` to delete
  have hsum : 0 < watched-1+if watched = 1 then 1 else 0 := by
    split <;> omega
  exact { h with
    weak := hw ▸ hnext
    fewWeak := ⟨by omega, by omega⟩
    once := by split <;> omega
    exclusive := fun hmore => if_neg (by omega)
    allocated := fun _ => h.allocated (by omega)
    fresh := fun hnone => absurd hnone hsum.ne'
    kept := fun hext _ => h.kept hext hwatched }

theorem Balanced.destroyFresh (h : Balanced M k s held watched doomed last settling)
    (hnone : watched = 0) (hfresh : s.mStrong = initialStrongValue) :
    Balanced M k { s with object := false, refs := false } held watched doomed 0 settling := by
  have hinit : initialStrongValue = 268435456 := by rfl
  have hne : s.mStrong ≠ 0 := by omega
  exact { h with
    once := by omega
    exclusive := fun _ => rfl
    allocated := fun hpos => by omega
    gone := fun _ => rfl
    fresh := fun _ hrefs => by cases hrefs
    single := fun hreg => by simp [h.single hreg, hne]
    dead := fun _ _ => .inr rfl
    kept := fun _ hpos => by omega }

theorem Balanced.destroyKept (h : Balanced M k s held watched doomed last settling)
    (hext : ¬ s.regular M) (hnone : watched = 0) (hlast : 0 < last) :
    Balanced M k { s with object := false } held watched doomed last settling :=
  { h with
    gone := fun _ => rfl
    fresh := fun hzero => by omega
    single := fun hreg => absurd hreg hext
    dead := fun hreg => absurd hreg hext
    kept := fun _ hpos => by omega }

theorem Balanced.deleteRefs (h : Balanced M k s held watched doomed last settling)
    (hnone : watched = 0) (hobject : s.object = false) :
    Balanced M k { s with refs := false } held watched doomed 0 settling :=
  { h with
    once := by omega
    exclusive := fun _ => rfl
    allocated := fun hpos => by omega
    gone := fun _ => hobject
    fresh := fun _ hrefs => by cases hrefs
    dead := fun _ _ => .inr rfl
    kept := fun _ hpos => by omega }

theorem Balanced.delete (h : Balanced M k s held watched doomed last settling)
    (hnone : watched = 0) (hobject : s.object = true) :
    Balanced M k s held watched doomed 1 settling := by
  have hrefs : s.refs = true := by
    by_contra hno
    rw [h.gone (Bool.eq_false_iff.mpr hno)] at hobject
    cases hobject
  exact { h with
    once := by omega
    exclusive := fun hpos => by omega
    allocated := fun _ => hrefs
    fresh := fun hzero => by omega }

theorem Balanced.hooks (h : Balanced M k s held watched doomed last settling) (fault : Bool)
    (firstRefs lastStrongRefs lastWeakRefs : ℕ) :
    Balanced M k { s with fault, firstRefs, lastStrongRefs, lastWeakRefs } held watched doomed last
      settling :=
  ⟨h.strong, h.weak, h.few, h.fewWeak, h.once, h.exclusive, h.allocated, h.gone, h.fresh,
    h.first, h.single, h.dead, h.kept⟩

theorem Balanced.object_held (h : Balanced M k s held watched doomed last settling)
    (hheld : 0 < held) (hwatched : 0 < watched) : s.object = true := by
  have hinit : initialStrongValue = 268435456 := by rfl
  have hs := h.strong
  by_cases hreg : s.regular M
  · exact h.object_of_count hreg hwatched (by omega)
  · exact h.kept hreg hwatched

theorem Balanced.last_state (h : Balanced M k s held watched doomed last settling)
    (hreg : s.regular M) (hheld : held = 0) (hdoomed : doomed = 0) :
    s.object = true → s.mStrong = initialStrongValue := by
  intro hobj
  have hd := h.single hreg
  have hne : s.mStrong ≠ 0 := by
    intro hzero
    rw [if_pos ⟨hzero, hobj⟩] at hd
    omega
  have hs := h.strong
  omega

end Wingray.RefBase
