import Mathlib.Tactic
import Mathlib.Algebra.Order.Floor.Div

/-!
# Aligning a machine word

The next multiple of a power of two, taken by adding the power and clearing
the low bits. It is the least multiple as long as the sum does not wrap.
-/

set_option autoImplicit false

namespace Wingray.WordAlignment

variable {w : ℕ}

def lowMask (w k : ℕ) : BitVec w := BitVec.ofNat w (2^k-1)

/-- Rounds only a word that is not aligned. -/
def alignUp (k : ℕ) (b : BitVec w) : BitVec w :=
  if b &&& lowMask w k ≠ 0 then (b+BitVec.ofNat w (2^k)) &&& ~~~(lowMask w k) else b

theorem and_lowMask (k : ℕ) (hk : k ≤ w) (b : BitVec w) :
    (b &&& lowMask w k).toNat = b.toNat % 2^k := by
  have hpow : 2^k ≤ 2^w := Nat.pow_le_pow_right (by decide) hk
  have hpos : 0 < 2^k := Nat.two_pow_pos k
  rw [BitVec.toNat_and, lowMask, BitVec.toNat_ofNat, Nat.mod_eq_of_lt (by omega),
    Nat.and_two_pow_sub_one_eq_mod]

theorem and_not_lowMask (k : ℕ) (hk : k ≤ w) (b : BitVec w) :
    (b &&& ~~~(lowMask w k)).toNat = b.toNat-b.toNat % 2^k := by
  have hdisjoint : (b &&& lowMask w k) &&& (b &&& ~~~(lowMask w k)) = 0#w := by
    ext i
    simp only [BitVec.getElem_and, BitVec.getElem_not]
    cases (lowMask w k)[i] <;> simp
  have hsum : (b &&& lowMask w k)+(b &&& ~~~(lowMask w k)) = b := by
    rw [BitVec.add_eq_or_of_and_eq_zero _ _ hdisjoint]
    ext i
    simp only [BitVec.getElem_or, BitVec.getElem_and, BitVec.getElem_not]
    cases (lowMask w k)[i] <;> simp
  have hlow := and_lowMask k hk b
  have hclear := BitVec.toNat_add_of_and_eq_zero hdisjoint
  rw [hsum] at hclear
  omega

theorem isLeast_multiple (d n : ℕ) (hd : 0 < d) :
    IsLeast {m | d ∣ m ∧ n ≤ m} (d*(n ⌈/⌉ d)) := by
  constructor
  · exact ⟨dvd_mul_right d _, (ceilDiv_le_iff_le_mul hd).mp le_rfl⟩
  · rintro m ⟨⟨q, rfl⟩, hm⟩
    exact Nat.mul_le_mul_left d ((ceilDiv_le_iff_le_mul hd).mpr hm)

theorem ceilDiv_eq (d q r : ℕ) (hr : r < d) :
    (d*q+r) ⌈/⌉ d = if r = 0 then q else q+1 := by
  have hd : 0 < d := Nat.zero_lt_of_lt hr
  rw [Nat.ceilDiv_eq_add_pred_div, add_assoc, Nat.add_sub_assoc (by omega),
    Nat.mul_add_div hd]
  split_ifs with h
  · rw [h, zero_add, Nat.div_eq_of_lt (by omega), add_zero]
  · have hover : r+d-1 = d+(r-1) := by omega
    rw [hover, Nat.add_div_left _ hd, Nat.div_eq_of_lt (by omega)]

theorem alignUp_toNat (k : ℕ) (hk : k ≤ w) (b : BitVec w) (h : b.toNat+2^k < 2^w) :
    (alignUp k b).toNat = 2^k*(b.toNat ⌈/⌉ 2^k) := by
  have hpos : 0 < 2^k := Nat.two_pow_pos k
  have hlow := and_lowMask k hk b
  have hdiv := Nat.div_add_mod b.toNat (2^k)
  have hceil := ceilDiv_eq (2^k) (b.toNat/2^k) (b.toNat % 2^k) (Nat.mod_lt _ hpos)
  rw [hdiv] at hceil
  rw [hceil, alignUp]
  split_ifs with hb hmod hmod
  · have hzero : b &&& lowMask w k = 0#w := BitVec.eq_of_toNat_eq (hlow.trans hmod)
    exact absurd hzero hb
  · -- some low bit is set, so the sum lies past the next multiple
    have hsum : (b+BitVec.ofNat w (2^k)).toNat = b.toNat+2^k := by
      rw [BitVec.toNat_add, BitVec.toNat_ofNat, Nat.add_mod_mod, Nat.mod_eq_of_lt h]
    rw [and_not_lowMask k hk, hsum, Nat.add_mod_right, Nat.mul_succ]
    omega
  · omega
  · rw [not_not.mp hb] at hlow
    exact absurd hlow.symm hmod

theorem alignUp_isLeast (k : ℕ) (hk : k ≤ w) (b : BitVec w) (h : b.toNat+2^k < 2^w) :
    IsLeast {m | 2^k ∣ m ∧ b.toNat ≤ m} (alignUp k b).toNat := by
  rw [alignUp_toNat k hk b h]
  exact isLeast_multiple (2^k) b.toNat (Nat.two_pow_pos k)

end Wingray.WordAlignment
