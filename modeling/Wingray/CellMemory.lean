import Mathlib.Tactic

/-!
# A flat memory of cells

Addresses are natural numbers. `store` writes a block of cells, `slice` reads
one back, and a block copy is a `store` of a `slice`.
-/

set_option autoImplicit false

namespace Wingray.CellMemory

variable {α : Type*}

abbrev Memory (α : Type*) := ℕ → α

def store (m : Memory α) (a : ℕ) (xs : List α) : Memory α :=
  fun j => if a ≤ j then xs.getD (j-a) (m j) else m j

def slice (m : Memory α) (a n : ℕ) : List α := (List.range n).map (fun i => m (a+i))

def copy (m : Memory α) (target source n : ℕ) : Memory α := store m target (slice m source n)

@[simp] theorem slice_length (m : Memory α) (a n : ℕ) : (slice m a n).length = n := by
  simp [slice]

@[simp] theorem slice_getElem (m : Memory α) (a n i : ℕ) (hi : i < (slice m a n).length) :
    (slice m a n)[i] = m (a+i) := by
  simp [slice]

theorem slice_succ (m : Memory α) (a n : ℕ) : slice m a (n+1) = slice m a n ++ [m (a+n)] := by
  simp [slice, List.range_succ]

theorem slice_cons (m : Memory α) (a n : ℕ) : slice m a (n+1) = m a :: slice m (a+1) n := by
  simp only [slice, List.range_succ_eq_map, List.map_cons, List.map_map]
  congr 1
  apply List.map_congr_left
  intro i _
  rw [Function.comp_apply, Nat.succ_eq_add_one]
  congr 1
  omega

theorem store_cons (m : Memory α) (a : ℕ) (x : α) (xs : List α) :
    store m a (x::xs) = store (Function.update m a x) (a+1) xs := by
  funext j
  simp only [store]
  rcases Nat.lt_trichotomy j a with hj | rfl | hj
  · rw [if_neg (by omega), if_neg (by omega), Function.update_of_ne hj.ne]
  · simp
  · have hi : j-a = j-(a+1)+1 := by omega
    rw [if_pos hj.le, if_pos (Nat.succ_le_of_lt hj), Function.update_of_ne hj.ne', hi]
    exact List.getD_cons_succ

theorem store_inside (m : Memory α) (a : ℕ) (xs : List α) (i : ℕ) (hi : i < xs.length) :
    store m a xs (a+i) = xs[i] := by
  simp [store, hi]

theorem slice_store (m : Memory α) (a : ℕ) (xs : List α) :
    slice (store m a xs) a xs.length = xs := by
  apply List.ext_getElem
  · exact slice_length _ _ _
  · intro i hi hi'
    rw [slice_getElem, store_inside m a xs i hi']

theorem store_below (m : Memory α) (a : ℕ) (xs : List α) (j : ℕ) (hj : j < a) :
    store m a xs j = m j := by
  simp [store, show ¬ a ≤ j by omega]

theorem store_above (m : Memory α) (a : ℕ) (xs : List α) (j : ℕ) (hj : a+xs.length ≤ j) :
    store m a xs j = m j := by
  simp [store, show xs.length ≤ j-a by omega]

theorem store_nil (m : Memory α) (a : ℕ) : store m a [] = m := by
  funext j
  simp [store]

theorem store_outside (m : Memory α) (a : ℕ) (xs : List α) (j : ℕ)
    (hj : j < a ∨ a+xs.length ≤ j) : store m a xs j = m j := by
  rcases hj with hj | hj
  · exact store_below m a xs j hj
  · exact store_above m a xs j hj

theorem store_slice (m : Memory α) (a n : ℕ) : store m a (slice m a n) = m := by
  funext j
  by_cases hj : a ≤ j ∧ j < a+n
  · have hi : j = a+(j-a) := by omega
    rw [hi, store_inside m a _ _ (by rw [slice_length]; omega), slice_getElem]
  · rcases Nat.lt_or_ge j a with hlt | hge
    · exact store_below m a _ j hlt
    · exact store_above m a _ j (by rw [slice_length]; omega)

theorem store_again (m : Memory α) (a : ℕ) (xs ys : List α) (h : xs.length = ys.length) :
    store (store m a xs) a ys = store m a ys := by
  funext j
  by_cases hj : a ≤ j ∧ j < a+ys.length
  · have hi : j = a+(j-a) := by omega
    rw [hi, store_inside _ a ys _ (by omega), store_inside m a ys _ (by omega)]
  · have hout : j < a ∨ a+ys.length ≤ j := by omega
    rw [store_outside _ a ys j hout, store_outside m a ys j hout,
      store_outside m a xs j (by omega)]

theorem store_before (m : Memory α) (a : ℕ) (x : α) (xs : List α) :
    store (store m (a+1) xs) a [x] = store m a (x::xs) := by
  funext j
  rcases Nat.lt_trichotomy j a with hj | rfl | hj
  · rw [store_below _ a _ j hj, store_below m a _ j hj, store_below m _ _ j (by omega)]
  · simp [store]
  · have hi : j-a = j-(a+1)+1 := by omega
    rw [store_above _ a [x] j (by simpa using hj)]
    simp [store, hj.le, Nat.succ_le_of_lt hj, hi]

theorem store_append (m : Memory α) (a : ℕ) (xs ys : List α) :
    store (store m a xs) (a+xs.length) ys = store m a (xs++ys) := by
  induction xs generalizing m a with
  | nil => rw [store_nil, List.length_nil, Nat.add_zero, List.nil_append]
  | cons x xs ih =>
    have hlength : a+(x::xs).length = a+1+xs.length := by
      rw [List.length_cons]
      omega
    rw [store_cons, hlength, ih, List.cons_append, store_cons]

theorem slice_congr {m m' : Memory α} {a n : ℕ} (h : ∀ i < n, m (a+i) = m' (a+i)) :
    slice m a n = slice m' a n := by
  apply List.map_congr_left
  intro i hi
  exact h i (List.mem_range.mp hi)

theorem foldl_frame {β : Type*} (f : Memory α → β → Memory α) (k : ℕ) (bs : List β)
    (h : ∀ m, ∀ b ∈ bs, f m b k = m k) (m : Memory α) : bs.foldl f m k = m k := by
  induction bs generalizing m with
  | nil => rfl
  | cons b bs ih =>
    rw [List.foldl_cons, ih (fun m b' hb => h m b' (List.mem_cons_of_mem b hb))]
    exact h m b List.mem_cons_self

/-- A loop that stores one block of `w` cells after another, each computed from
cells that the loop has not yet stored to. -/
theorem store_blocks (w a : ℕ) (g : Memory α → ℕ → List α) (hw : ∀ m k, (g m k).length = w)
    (m : Memory α) (n : ℕ)
    (hg : ∀ k < n, ∀ m' : Memory α, (∀ j, j < a ∨ a+w*k ≤ j → m' j = m j) → g m' k = g m k) :
    (List.range n).foldl (fun m k => store m (a+w*k) (g m k)) m =
      store m a ((List.range n).flatMap (g m)) := by
  induction n with
  | zero => exact (store_nil m a).symm
  | succ n ih =>
    have hlength : ((List.range n).flatMap (g m)).length = w*n := by
      simp [List.length_flatMap, hw, Nat.mul_comm]
    have hlast : g (store m a ((List.range n).flatMap (g m))) n = g m n := by
      apply hg n (Nat.lt_succ_self n)
      intro j hj
      rw [← hlength] at hj
      exact store_outside m a _ j hj
    rw [List.range_succ, List.foldl_append, ih (fun k hk => hg k (Nat.lt_succ_of_lt hk)),
      List.foldl_cons, List.foldl_nil, hlast, ← hlength, store_append, List.flatMap_append,
      List.flatMap_singleton]

end Wingray.CellMemory
