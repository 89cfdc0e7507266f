import Wingray.CellMemory

/-!
# Bounded queues and circular storage

A bounded queue is a stream of delivered items with the number already
consumed; the rest is unread and never longer than the capacity. A circular
window reads a run of cells that continues at the front after the last cell.
-/

set_option autoImplicit false

namespace Wingray.BoundedQueue
open Wingray.CellMemory

variable {α : Type*}

structure Queue (α : Type*) (capacity : ℕ) where
  delivered : List α
  consumed : ℕ
  consumed_le : consumed ≤ delivered.length
  bounded : delivered.length-consumed ≤ capacity

namespace Queue

variable {capacity : ℕ}

def unread (q : Queue α capacity) : List α := q.delivered.drop q.consumed

def empty (α : Type*) (capacity : ℕ) : Queue α capacity :=
  ⟨[], 0, le_rfl, Nat.zero_le _⟩

def push (q : Queue α capacity) (xs : List α) (h : q.unread.length+xs.length ≤ capacity) :
    Queue α capacity where
  delivered := q.delivered ++ xs
  consumed := q.consumed
  consumed_le := by
    have := q.consumed_le
    rw [List.length_append]
    omega
  bounded := by
    have := q.consumed_le
    simp only [unread, List.length_drop] at h
    rw [List.length_append]
    omega

def pop (q : Queue α capacity) (h : q.unread ≠ []) : Queue α capacity where
  delivered := q.delivered
  consumed := q.consumed+1
  consumed_le := by
    have hl := List.length_pos_iff.mpr h
    simp only [unread, List.length_drop] at hl
    omega
  bounded := by
    have := q.bounded
    omega

theorem unread_length (q : Queue α capacity) :
    q.unread.length = q.delivered.length-q.consumed := by
  simp [unread]

theorem unread_push (q : Queue α capacity) (xs : List α)
    (h : q.unread.length+xs.length ≤ capacity) : (q.push xs h).unread = q.unread ++ xs :=
  List.drop_append_of_le_length q.consumed_le

theorem unread_pop (q : Queue α capacity) (h : q.unread ≠ []) :
    (q.pop h).unread = q.unread.tail := by
  simp [unread, pop]

theorem take_pop (q : Queue α capacity) (x : α) (xs : List α) (h : q.unread = x::xs) :
    q.delivered.take (q.consumed+1) = q.delivered.take q.consumed ++ [x] := by
  have hx : q.delivered[q.consumed]? = some x := by
    have := congrArg List.head? h
    simpa [unread, List.head?_drop] using this
  rw [List.take_add_one, hx]
  rfl

end Queue

/-! ## Circular storage

A block that runs past the last cell is stored in the second half of a
double-length area and its overflow is copied to the front. -/

def wrap (cap k : ℕ) : ℕ := if k < cap then k else k-cap

def Holds (cells : Memory α) (cap start : ℕ) (xs : List α) : Prop :=
  ∀ i (hi : i < xs.length), cells (wrap cap (start+i)) = xs[i]

def Aligned (cap head k : ℕ) : Prop := head = k ∨ head+cap = k ∨ head = k+cap

def storeWrapped (cells : Memory α) (cap head : ℕ) (xs : List α) : Memory α :=
  if cap < head+xs.length then
    copy (store cells head xs) 0 cap (head+xs.length-cap)
  else store cells head xs

theorem wrap_lt {cap k : ℕ} (hk : k < 2*cap) : wrap cap k < cap := by
  unfold wrap
  split_ifs <;> omega

theorem storeWrapped_inside (cells : Memory α) (cap head i : ℕ) (xs : List α)
    (hx : xs.length ≤ cap) (hi : i < xs.length) :
    storeWrapped cells cap head xs (wrap cap (head+i)) = xs[i] := by
  have hs := store_inside cells head xs i hi
  unfold storeWrapped wrap
  by_cases hw : head+i < cap
  · rw [if_pos hw]
    by_cases ho : cap < head+xs.length
    · rw [if_pos ho, copy, store_above _ _ _ _ (by simp; omega), hs]
    · rw [if_neg ho, hs]
  · have hc : head+i-cap < (slice (store cells head xs) cap (head+xs.length-cap)).length := by
      simp
      omega
    have hcopy := store_inside (store cells head xs) 0 _ _ hc
    rw [if_neg hw, if_pos (by omega), copy]
    rw [Nat.zero_add, slice_getElem, show cap+(head+i-cap) = head+i by omega, hs] at hcopy
    exact hcopy

theorem storeWrapped_outside (cells : Memory α) (cap head j : ℕ) (xs : List α)
    (hb : j < head ∨ head+xs.length ≤ j) (hw : head+xs.length ≤ j+cap) :
    storeWrapped cells cap head xs j = cells j := by
  have hs : store cells head xs j = cells j := by
    rcases hb with hb | hb
    · exact store_below cells head xs j hb
    · exact store_above cells head xs j hb
  unfold storeWrapped
  split_ifs with ho
  · rw [copy, store_above _ _ _ _ (by simp; omega), hs]
  · exact hs

theorem aligned_wrap {cap head k i : ℕ} (ha : Aligned cap head k) (hh : head ≤ cap)
    (hk : k+i < 2*cap) (hi : i < cap) : wrap cap (head+i) = wrap cap (k+i) := by
  unfold Aligned at ha
  unfold wrap
  split_ifs <;> omega

theorem holds_append (cells : Memory α) (cap start head : ℕ) (xs ys : List α)
    (hh : head ≤ cap) (hs : start < cap) (ha : Aligned cap head (start+xs.length))
    (hl : xs.length+ys.length ≤ cap) (hx : Holds cells cap start xs) :
    Holds (storeWrapped cells cap head ys) cap start (xs++ys) := by
  intro i hi
  rw [List.length_append] at hi
  by_cases hb : i < xs.length
  · rw [List.getElem_append_left hb, ← hx i hb]
    unfold Aligned at ha
    apply storeWrapped_outside
    · unfold wrap
      split_ifs <;> omega
    · unfold wrap
      split_ifs <;> omega
  · rw [List.getElem_append_right (by omega)]
    have hslot := aligned_wrap (i := i-xs.length) ha hh (by omega) (by omega)
    rw [show start+xs.length+(i-xs.length) = start+i by omega] at hslot
    rw [← hslot]
    exact storeWrapped_inside cells cap head _ ys (by omega) (by omega)

theorem holds_tail (cells : Memory α) (cap start : ℕ) (x : α) (xs : List α) (hs : start < cap)
    (hl : xs.length < cap) (hx : Holds cells cap start (x::xs)) :
    Holds cells cap (wrap cap (start+1)) xs := by
  intro i hi
  have hi' : i+1 < (x::xs).length := by simpa using hi
  have hcell := hx (i+1) hi'
  have hslot : wrap cap (wrap cap (start+1)+i) = wrap cap (start+(i+1)) := by
    unfold wrap
    split_ifs <;> omega
  rw [hslot, hcell, List.getElem_cons_succ]

end Wingray.BoundedQueue
