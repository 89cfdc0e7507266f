import Mathlib.Tactic

/-!
# One latch and the private copies its users keep

Several users share a latch and each remembers only whether it went to sleep
itself. A user that goes to sleep asks for the latch to be set; one that is used
asks for it to be cleared if it remembers being asleep. Either request may be
refused, which no user remembers.
-/

set_option autoImplicit false

namespace Wingray.SharedLatch

inductive Op (ι : Type*)
  | sleep (i : ι) (accepted : Bool)
  | use (i : ι) (accepted : Bool)
  | join (i : ι)
  | other

structure Latch (ι : Type*) where
  asleep : ι → Bool
  set : Bool

variable {ι : Type*} [DecidableEq ι]

def Latch.clear (ι : Type*) : Latch ι := ⟨fun _ => false, false⟩

def Latch.apply (l : Latch ι) : Op ι → Latch ι
  | .sleep i accepted => ⟨Function.update l.asleep i true, l.set || accepted⟩
  | .use i accepted => ⟨Function.update l.asleep i false, l.set && !(l.asleep i && accepted)⟩
  | .join i => ⟨Function.update l.asleep i false, l.set⟩
  | .other => l

def Latch.applyAll (l : Latch ι) (ops : List (Op ι)) : Latch ι := ops.foldl Latch.apply l

/-- A use that finds the latch clear, or remembers being asleep and has its
request accepted. -/
def Latch.Awakes (l : Latch ι) (op : Op ι) : Prop :=
  ∀ i accepted, op = .use i accepted → l.set = true → l.asleep i = true ∧ accepted = true

theorem awakes_iff (l : Latch ι) (op : Op ι) :
    l.Awakes op ↔ ∀ i accepted, op = .use i accepted → (l.apply op).set = false := by
  constructor
  · rintro h i accepted rfl
    simp only [Latch.apply, Bool.and_eq_false_iff, Bool.not_eq_false', Bool.and_eq_true]
    by_cases hs : l.set = true
    · exact .inr (h i accepted rfl hs)
    · exact .inl (Bool.eq_false_iff.mpr hs)
  · rintro h i accepted rfl hs
    have hclear := h i accepted rfl
    simpa [Latch.apply, hs] using hclear

/-! ## Users that come and go

`users` holds the live users, `flag` what one of them remembers and `set` the
latch itself. -/

structure Latched {α : Type*} (users : ι → Option α) (flag : α → Bool) (set : Bool)
    (l : Latch ι) : Prop where
  mirrors : ∀ i x, users i = some x → flag x = l.asleep i
  set : set = l.set

section Users

variable {α : Type*} {users : ι → Option α} {flag : α → Bool} {set : Bool} {l : Latch ι}

theorem mirrors_update (hl : Latched users flag set l) (i : ι) (x : α) (b : Bool)
    (hx : flag x = b) (k : ι) (y : α) (hy : Function.update users i (some x) k = some y) :
    flag y = Function.update l.asleep i b k := by
  by_cases hk : k = i
  · subst hk
    rw [Function.update_self] at hy ⊢
    rw [← Option.some.inj hy, hx]
  · rw [Function.update_of_ne hk] at hy ⊢
    exact hl.mirrors k y hy

theorem latched_sleep (hl : Latched users flag set l) (i : ι) {x : α} (hx : flag x = true)
    (accepted : Bool) : Latched (Function.update users i (some x)) flag (set || accepted)
      (l.apply (.sleep i accepted)) where
  mirrors := mirrors_update hl i x true hx
  set := by
    rw [hl.set]
    rfl

theorem latched_wake (hl : Latched users flag set l) (i : ι) {x y : α} (hi : users i = some x)
    (hx : flag x = true) (hy : flag y = false) (accepted : Bool) :
    Latched (Function.update users i (some y)) flag (set && !accepted)
      (l.apply (.use i accepted)) where
  mirrors := mirrors_update hl i y false hy
  set := by
    simp only [Latch.apply]
    rw [hl.set, ← hl.mirrors i x hi, hx, Bool.true_and]

/-- A user that remembers being awake sends no request. -/
theorem latched_awake (hl : Latched users flag set l) (i : ι) {x : α} (hi : users i = some x)
    (hx : flag x = false) (accepted : Bool) :
    Latched users flag set (l.apply (.use i accepted)) where
  mirrors := by
    intro k y hy
    simp only [Latch.apply]
    by_cases hk : k = i
    · rw [hk] at hy ⊢
      rw [Function.update_self, Option.some.inj (hy.symm.trans hi), hx]
    · rw [Function.update_of_ne hk]
      exact hl.mirrors k y hy
  set := by
    simp only [Latch.apply]
    rw [hl.set, ← hl.mirrors i x hi, hx, Bool.false_and, Bool.not_false, Bool.and_true]

theorem latched_join (hl : Latched users flag set l) (i : ι) {x : α} (hx : flag x = false) :
    Latched (Function.update users i (some x)) flag set (l.apply (.join i)) where
  mirrors := mirrors_update hl i x false hx
  set := hl.set

theorem latched_refused (hl : Latched users flag set l) (i : ι) (hi : users i = none) :
    Latched users flag set (l.apply (.join i)) where
  mirrors := by
    intro k x hx
    have hk : k ≠ i := by
      rintro rfl
      cases hi.symm.trans hx
    simp only [Latch.apply]
    rw [Function.update_of_ne hk]
    exact hl.mirrors k x hx
  set := hl.set

omit [DecidableEq ι] in
theorem latched_leave {users' : ι → Option α} {set' : Bool} (hl : Latched users flag set l)
    (hset : set' = set) (hu : ∀ i x, users' i = some x → users i = some x) :
    Latched users' flag set' l where
  mirrors := fun i x hx => hl.mirrors i x (hu i x hx)
  set := hset.trans hl.set

end Users

end Wingray.SharedLatch
