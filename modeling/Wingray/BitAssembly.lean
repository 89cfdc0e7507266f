import Mathlib.Tactic

/-!
# Words put together bit by bit

A bit is set by an `or` with its mask and cleared by an `and` with the
complement. Assigning every bit leaves nothing of what the word held before.
-/

set_option autoImplicit false

namespace Wingray.BitAssembly

variable {w : ℕ}

def assign (b : BitVec w) (i : ℕ) (v : Bool) : BitVec w :=
  if v then b ||| 1#w <<< i else b &&& ~~~(1#w <<< i)

def assemble (v : ℕ → Bool) (n : ℕ) (b : BitVec w) : BitVec w :=
  (List.range n).foldl (fun b i => assign b i (v i)) b

theorem mask_getLsbD (i k : ℕ) (hk : k < w) : (1#w <<< i).getLsbD k = decide (k = i) := by
  simp only [BitVec.getLsbD_shiftLeft, BitVec.getLsbD_one]
  by_cases hki : k = i
  · subst hki
    simp [hk, Nat.zero_lt_of_lt hk]
  · simp [hki]
    omega

theorem and_mask_ne_zero (b : BitVec w) (k : ℕ) (hk : k < w) :
    b &&& BitVec.twoPow w k ≠ 0 ↔ b.getLsbD k = true := by
  have hp : BitVec.twoPow w k ≠ 0 := by
    intro h
    have hbit := congrArg (fun y => BitVec.getLsbD y k) h
    simp [hk] at hbit
  rw [BitVec.and_twoPow]
  cases b.getLsbD k with
  | false => simp
  | true => simpa using hp

theorem assign_getLsbD (b : BitVec w) (i : ℕ) (v : Bool) (k : ℕ) (hk : k < w) :
    (assign b i v).getLsbD k = if k = i then v else b.getLsbD k := by
  rw [assign]
  cases v with
  | true =>
    rw [if_pos rfl, BitVec.getLsbD_or, mask_getLsbD i k hk]
    by_cases hki : k = i <;> simp [hki]
  | false =>
    rw [if_neg Bool.false_ne_true, BitVec.getLsbD_and, BitVec.getLsbD_not, mask_getLsbD i k hk]
    by_cases hki : k = i <;> simp [hki, hk]

theorem assemble_succ (v : ℕ → Bool) (n : ℕ) (b : BitVec w) :
    assemble v (n+1) b = assign (assemble v n b) n (v n) := by
  rw [assemble, List.range_succ, List.foldl_append]
  rfl

theorem assemble_getLsbD (v : ℕ → Bool) (n : ℕ) (b : BitVec w) (k : ℕ) (hk : k < w) :
    (assemble v n b).getLsbD k = if k < n then v k else b.getLsbD k := by
  induction n with
  | zero => rfl
  | succ n ih =>
    rw [assemble_succ, assign_getLsbD _ _ _ _ hk, ih]
    by_cases hkn : k = n
    · simp [hkn]
    · rw [if_neg hkn]
      by_cases hlt : k < n
      · rw [if_pos hlt, if_pos (Nat.lt_succ_of_lt hlt)]
      · rw [if_neg hlt, if_neg (by omega)]

theorem assemble_full (v : ℕ → Bool) (b b' : BitVec w) : assemble v w b = assemble v w b' := by
  apply BitVec.eq_of_getLsbD_eq
  intro k hk
  rw [assemble_getLsbD v w b k hk, assemble_getLsbD v w b' k hk, if_pos hk, if_pos hk]

end Wingray.BitAssembly
