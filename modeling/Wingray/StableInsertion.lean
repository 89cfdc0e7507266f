import Mathlib.Tactic
import Mathlib.Data.List.DropRight

/-!
# Insertion from the right

An element goes into a list behind the last one that does not come after it. Lists
that are put together so are sorted, hold the same elements, and keep the elements
that the order does not tell apart in the order they came in.
-/

set_option autoImplicit false

namespace Wingray.StableInsertion

variable {α : Type*} (after : α → α → Bool)

/-- `after y x` says that `y` comes behind `x`. -/
def insertRight (x : α) (l : List α) : List α :=
  l.rdropWhile (fun y => after y x) ++ (x :: l.rtakeWhile (fun y => after y x))

def sortRight (xs : List α) : List α := xs.foldl (fun l x => insertRight after x l) []

def Ordered (l : List α) : Prop := l.Pairwise (fun a b => after a b = false)

structure StrictWeak : Prop where
  asymm : ∀ a b, after a b = true → after b a = false
  trans : ∀ a b c, after a b = false → after b c = false → after a c = false

def Same (a b : α) : Bool := !after a b && !after b a

variable {after} {x y : α} {l xs : List α}

theorem insertRight_stop (h : after y x = false) :
    insertRight after x (l ++ [y]) = l ++ [y] ++ [x] := by
  rw [insertRight, List.rdropWhile_concat_neg _ _ _ (by rw [h]; decide),
    List.rtakeWhile_concat_neg _ _ _ (by rw [h]; decide)]

theorem insertRight_shift (h : after y x = true) :
    insertRight after x (l ++ [y]) = insertRight after x l ++ [y] := by
  rw [insertRight, List.rdropWhile_concat_pos (fun y => after y x) l y h,
    List.rtakeWhile_concat_pos (fun y => after y x) l y h, insertRight]
  simp

theorem insertRight_perm (x : α) (l : List α) : (insertRight after x l).Perm (l ++ [x]) := by
  induction l using List.reverseRecOn with
  | nil => exact .refl _
  | append_singleton l y ih =>
    cases h : after y x with
    | false => rw [insertRight_stop h]
    | true =>
      rw [insertRight_shift h]
      refine (ih.append_right [y]).trans ?_
      rw [List.append_assoc, List.append_assoc]
      exact (List.Perm.swap y x []).append_left l

theorem sortRight_concat (xs : List α) (x : α) :
    sortRight after (xs ++ [x]) = insertRight after x (sortRight after xs) := by
  rw [sortRight, List.foldl_append]
  rfl

theorem sortRight_perm (xs : List α) : (sortRight after xs).Perm xs := by
  induction xs using List.reverseRecOn with
  | nil => exact .refl _
  | append_singleton xs x ih =>
    rw [sortRight_concat]
    exact (insertRight_perm x _).trans (ih.append_right [x])

theorem sortRight_length (xs : List α) : (sortRight after xs).length = xs.length :=
  (sortRight_perm xs).length_eq

theorem insertRight_ordered (hw : StrictWeak after) (hl : Ordered after l) :
    Ordered after (insertRight after x l) := by
  induction l using List.reverseRecOn with
  | nil => exact List.pairwise_singleton _ _
  | append_singleton l y ih =>
    obtain ⟨hfront, -, hback⟩ := List.pairwise_append.mp hl
    cases h : after y x with
    | false =>
      rw [insertRight_stop h]
      refine List.pairwise_append.mpr ⟨hl, List.pairwise_singleton _ _, ?_⟩
      intro a ha b hb
      obtain rfl := List.mem_singleton.mp hb
      rcases List.mem_append.mp ha with ha | ha
      · exact hw.trans a y b (hback a ha y List.mem_cons_self) h
      · rwa [List.mem_singleton.mp ha]
    | true =>
      rw [insertRight_shift h]
      refine List.pairwise_append.mpr ⟨ih hfront, List.pairwise_singleton _ _, ?_⟩
      intro a ha b hb
      obtain rfl := List.mem_singleton.mp hb
      rcases List.mem_append.mp ((insertRight_perm x l).mem_iff.mp ha) with ha | ha
      · exact hback a ha b List.mem_cons_self
      · rw [List.mem_singleton.mp ha]
        exact hw.asymm b x h

theorem sortRight_ordered (hw : StrictWeak after) (xs : List α) :
    Ordered after (sortRight after xs) := by
  induction xs using List.reverseRecOn with
  | nil => exact List.Pairwise.nil
  | append_singleton xs x ih =>
    rw [sortRight_concat]
    exact insertRight_ordered hw ih

/-- An element that is behind `x` is not told apart from nothing that is like `x`. -/
theorem same_behind (hw : StrictWeak after) {z : α} (h : after y x = true)
    (hx : Same after z x = true) : Same after z y = false := by
  cases hy : Same after z y with
  | false => rfl
  | true =>
    simp only [Same, Bool.and_eq_true, Bool.not_eq_true'] at hx hy
    rw [hw.trans y z x hy.2 hx.1] at h
    cases h

theorem insertRight_stable (hw : StrictWeak after) (z x : α) (l : List α) :
    (insertRight after x l).filter (Same after z) = (l ++ [x]).filter (Same after z) := by
  induction l using List.reverseRecOn with
  | nil => rfl
  | append_singleton l y ih =>
    cases h : after y x with
    | false => rw [insertRight_stop h]
    | true =>
      rw [insertRight_shift h, List.filter_append, ih]
      simp only [List.filter_append, List.append_assoc]
      congr 1
      cases hx : Same after z x with
      | false => simp [hx]
      | true => simp [hx, same_behind hw h hx]

/-- The elements that the order does not tell from `z` come out as they went in. -/
theorem sortRight_stable (hw : StrictWeak after) (z : α) (xs : List α) :
    (sortRight after xs).filter (Same after z) = xs.filter (Same after z) := by
  induction xs using List.reverseRecOn with
  | nil => rfl
  | append_singleton xs x ih =>
    rw [sortRight_concat, insertRight_stable hw, List.filter_append, ih, List.filter_append]

end Wingray.StableInsertion
