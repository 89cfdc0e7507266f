import Wingray.CrcRegister
import Mathlib.Algebra.Polynomial.Div
import Mathlib.Algebra.Polynomial.RingDivision

/-!
# Register words as binary polynomials

Bit `i` of a word is the coefficient of `X^i`, and a stream of bits lists the
coefficients of its polynomial from the highest power down. A step of the
register keeps it congruent to what has entered, so that the register always
holds the remainder of the division.
-/

set_option autoImplicit false

namespace Wingray.CrcPolynomial
noncomputable section
open Wingray.CrcRegister Polynomial

abbrev Binary := (ZMod 2)[X]

def bit (b : Bool) : ZMod 2 := if b then 1 else 0

theorem bit_xor (b c : Bool) : bit (b ^^ c) = bit b+bit c := by
  cases b <;> cases c <;> decide

theorem bit_injective {b c : Bool} (h : bit b = bit c) : b = c := by
  revert h
  cases b <;> cases c <;> decide

def wordPoly {w : ℕ} (r : BitVec w) : Binary :=
  ∑ i ∈ Finset.range w, C (bit (r.getLsbD i))*X^i

def messagePoly : List Bool → Binary
  | [] => 0
  | b::bits => C (bit b)*X^bits.length+messagePoly bits

section Words

variable {w : ℕ} (poly r s : BitVec w) (b : Bool)

theorem wordPoly_coeff (k : ℕ) : (wordPoly r).coeff k = bit (r.getLsbD k) := by
  rw [wordPoly, finsetSum_coeff]
  simp only [coeff_C_mul_X_pow]
  rw [Finset.sum_ite_eq]
  split_ifs with hk
  · rfl
  · rw [BitVec.getLsbD_of_ge r k (by simpa using hk)]
    rfl

theorem wordPoly_injective (h : wordPoly r = wordPoly s) : r = s := by
  apply BitVec.eq_of_getLsbD_eq
  intro i _
  apply bit_injective
  rw [← wordPoly_coeff, ← wordPoly_coeff, h]

@[simp] theorem wordPoly_zero : wordPoly 0#w = 0 := by
  ext k
  rw [wordPoly_coeff, BitVec.getLsbD_zero, coeff_zero]
  rfl

theorem wordPoly_xor : wordPoly (r ^^^ s) = wordPoly r+wordPoly s := by
  ext k
  simp only [coeff_add, wordPoly_coeff, BitVec.getLsbD_xor, bit_xor]

theorem wordPoly_degree : (wordPoly r).degree < w := by
  rw [degree_lt_iff_coeff_zero]
  intro k hk
  rw [wordPoly_coeff, BitVec.getLsbD_of_ge r k hk]
  rfl

theorem wordPoly_shift : wordPoly (r <<< 1) = X*wordPoly r+C (bit r.msb)*X^w := by
  ext k
  rw [coeff_add, coeff_C_mul_X_pow, wordPoly_coeff, BitVec.getLsbD_shiftLeft]
  cases k with
  | zero =>
    rw [coeff_X_mul_zero]
    rcases Nat.eq_zero_or_pos w with rfl | hw
    · rw [BitVec.msb_eq_getLsbD_last, BitVec.getLsbD_of_ge r _ (Nat.zero_le _)]
      simp [bit]
    · simp [hw, hw.ne, bit]
  | succ k =>
    rw [coeff_X_mul, wordPoly_coeff, BitVec.msb_eq_getLsbD_last]
    rcases Nat.lt_trichotomy (k+1) w with hk | rfl | hk
    · simp [hk, hk.ne]
    · have hleaves : bit (r.getLsbD k)+bit (r.getLsbD k) = 0 := CharTwo.add_self_eq_zero _
      simp only [lt_irrefl, decide_false, Bool.false_and, if_true, Nat.add_sub_cancel, hleaves]
      rfl
    · simp [hk.ne', not_lt.mpr hk.le, BitVec.getLsbD_of_ge r k (by omega), bit]

def divisor : Binary := X^w+wordPoly poly

theorem divisor_monic : (divisor poly).Monic := monic_X_pow_add (wordPoly_degree poly)

theorem divisor_degree : (divisor poly).degree = w := by
  rw [divisor, degree_add_eq_left_of_degree_lt, degree_X_pow]
  rw [degree_X_pow]
  exact wordPoly_degree poly

/-- What leaves the register and what enters meet at `X^w`, where the divisor
cancels them. -/
theorem feed_poly : wordPoly (feed poly r b) =
    X*wordPoly r+C (bit b)*X^w+C (bit (b ^^ r.msb))*divisor poly := by
  have hword : wordPoly (feed poly r b) =
      wordPoly (r <<< 1)+C (bit (b ^^ r.msb))*wordPoly poly := by
    rw [feed]
    cases b ^^ r.msb with
    | false => simp [bit]
    | true => simp [bit, wordPoly_xor]
  have hmsb : bit r.msb = bit b+bit (b ^^ r.msb) := by
    rw [← bit_xor, ← Bool.xor_assoc, Bool.xor_self, Bool.false_xor]
  rw [hword, wordPoly_shift, hmsb, C_add, divisor]
  ring

theorem feed_congr :
    divisor poly ∣ wordPoly (feed poly r b)-(X*wordPoly r+C (bit b)*X^w) := by
  rw [feed_poly, add_sub_cancel_left]
  exact dvd_mul_left _ _

theorem feeds_congr (bits : List Bool) : divisor poly ∣ wordPoly (feeds poly r bits)-
    (wordPoly r*X^bits.length+messagePoly bits*X^w) := by
  induction bits generalizing r with
  | nil => simp [messagePoly]
  | cons b bits ih =>
    have hstep := (feed_congr poly r b).mul_right (X^bits.length)
    have hsum := dvd_add (ih (feed poly r b)) hstep
    rw [feeds_cons, messagePoly, List.length_cons]
    convert hsum using 1
    ring

theorem feeds_poly (bits : List Bool) : wordPoly (feeds poly r bits) =
    (wordPoly r*X^bits.length+messagePoly bits*X^w) %ₘ divisor poly := by
  have hdegree : (wordPoly (feeds poly r bits)).degree < (divisor poly).degree := by
    rw [divisor_degree]
    exact wordPoly_degree _
  rw [← modByMonic_eq_of_dvd_sub (divisor_monic poly) (feeds_congr poly r bits)]
  exact ((modByMonic_eq_self_iff (divisor_monic poly)).mpr hdegree).symm

theorem feeds_remainder (bits : List Bool) :
    wordPoly (feeds poly 0#w bits) = (messagePoly bits*X^w) %ₘ divisor poly := by
  rw [feeds_poly, wordPoly_zero, zero_mul, zero_add]

/-- A divisor with a constant term has no common factor with `X`, so a register
that is empty at the start is empty at the end exactly when the divisor divides
what has entered. -/
theorem feeds_zero_iff (h0 : poly.getLsbD 0 = true) (hw : 0 < w) (bits : List Bool) :
    feeds poly 0#w bits = 0#w ↔ divisor poly ∣ messagePoly bits := by
  have hconstant : ¬ X ∣ divisor poly := by
    rw [X_dvd_iff, divisor, coeff_add, coeff_X_pow, if_neg hw.ne, wordPoly_coeff, h0, zero_add]
    exact one_ne_zero
  have hcoprime : IsCoprime (divisor poly) (X^w) :=
    ((irreducible_X.coprime_iff_not_dvd).mpr hconstant).symm.pow_right
  have hpoly := feeds_remainder poly bits
  constructor
  · intro hzero
    rw [hzero, wordPoly_zero] at hpoly
    exact hcoprime.dvd_of_dvd_mul_right
      ((modByMonic_eq_zero_iff_dvd (divisor_monic poly)).mp hpoly.symm)
  · intro hdvd
    apply wordPoly_injective
    rw [hpoly, wordPoly_zero, modByMonic_eq_zero_iff_dvd (divisor_monic poly)]
    exact hdvd.mul_right _

end Words

end

end Wingray.CrcPolynomial
