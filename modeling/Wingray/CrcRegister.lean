import Mathlib.Tactic

/-!
# Shift registers that divide by a binary polynomial

The register holds a remainder with `w` coefficients and `poly` is the divisor
without its leading term. One input bit meets the leading bit of the register
and the register moves one place. Linearity, the reversal of a step, parity and
the period of the idle register decide which error patterns are detected.
-/

set_option autoImplicit false

namespace Wingray.CrcRegister

variable {w : ℕ} (poly : BitVec w)

def feed (r : BitVec w) (b : Bool) : BitVec w :=
  if b ^^ r.msb then (r <<< 1) ^^^ poly else r <<< 1

def feeds (r : BitVec w) (bits : List Bool) : BitVec w := bits.foldl (feed poly) r

def advance (r : BitVec w) : BitVec w := feed poly r false

@[simp] theorem feeds_nil (r : BitVec w) : feeds poly r [] = r := rfl

@[simp] theorem feeds_cons (r : BitVec w) (b : Bool) (bits : List Bool) :
    feeds poly r (b::bits) = feeds poly (feed poly r b) bits := rfl

theorem feeds_append (r : BitVec w) (xs ys : List Bool) :
    feeds poly r (xs++ys) = feeds poly (feeds poly r xs) ys :=
  List.foldl_append

theorem feeds_replicate (r : BitVec w) (n : ℕ) :
    feeds poly r (List.replicate n false) = (advance poly)^[n] r := by
  induction n generalizing r with
  | zero => rfl
  | succ n ih => exact ih _

theorem feed_xor (r s : BitVec w) (b c : Bool) :
    feed poly (r ^^^ s) (b ^^ c) = feed poly r b ^^^ feed poly s c := by
  have hb : ((b ^^ c) ^^ (r ^^^ s).msb) = ((b ^^ r.msb) ^^ (c ^^ s.msb)) := by
    rw [BitVec.msb_xor]
    cases b <;> cases c <;> cases r.msb <;> cases s.msb <;> rfl
  have hs : (r ^^^ s) <<< 1 = (r <<< 1) ^^^ (s <<< 1) := BitVec.shiftLeft_xor_distrib _ _ _
  simp only [feed, hb, hs]
  cases b ^^ r.msb <;> cases c ^^ s.msb
  · simp
  · simp [BitVec.xor_assoc]
  · simp only [Bool.xor_false, if_true, Bool.false_eq_true, if_false]
    rw [BitVec.xor_assoc, BitVec.xor_comm (s <<< 1), ← BitVec.xor_assoc]
  · simp only [Bool.xor_self, Bool.false_eq_true, if_false, if_true]
    rw [BitVec.xor_comm (s <<< 1) poly, BitVec.xor_assoc, ← BitVec.xor_assoc poly poly,
      BitVec.xor_self, BitVec.zero_xor]

theorem feeds_xor (xs ys : List Bool) (r s : BitVec w) (h : xs.length = ys.length) :
    feeds poly (r ^^^ s) (List.zipWith xor xs ys) = feeds poly r xs ^^^ feeds poly s ys := by
  induction xs generalizing ys r s with
  | nil =>
    have hy : ys = [] := List.length_eq_zero_iff.mp h.symm
    simp [hy]
  | cons b xs ih =>
    cases ys with
    | nil => simp at h
    | cons c ys =>
      simp only [List.zipWith_cons_cons, feeds_cons, feed_xor]
      exact ih _ _ _ (by simpa using h)

theorem feed_zero : feed poly 0#w false = 0#w := by
  simp [feed]

theorem feeds_zero (n : ℕ) : feeds poly 0#w (List.replicate n false) = 0#w := by
  induction n with
  | zero => rfl
  | succ n ih => rw [List.replicate_succ, feeds_cons, feed_zero, ih]

/-! ## Reversing a step -/

theorem feed_low_bit (h0 : poly.getLsbD 0 = true) (r : BitVec w) (b : Bool) :
    (feed poly r b).getLsbD 0 = (b ^^ r.msb) := by
  unfold feed
  split <;> simp_all

/-- A divisor with a constant term is not applied by a step that clears the
lowest bit, so such a step is a plain shift. -/
theorem feed_low_clear (h0 : poly.getLsbD 0 = true) (r : BitVec w) (b : Bool)
    (h : (feed poly r b).getLsbD 0 = false) : b = r.msb ∧ feed poly r b = r <<< 1 := by
  rw [feed_low_bit poly h0] at h
  constructor
  · simpa using h
  · simp [feed, h]

theorem shift_high_bit (r : BitVec w) (j : ℕ) (hj : j+1 < w) :
    (r <<< 1).getLsbD (j+1) = r.getLsbD j := by
  rw [BitVec.getLsbD_shiftLeft]
  simp [hj]

theorem feeds_empties (h0 : poly.getLsbD 0 = true) (bits : List Bool) (r : BitVec w)
    (hl : bits.length ≤ w) (h : feeds poly r bits = 0#w) :
    (∀ i (hi : i < bits.length), bits[i] = r.getLsbD (w-1-i)) ∧
      ∀ j < w-bits.length, r.getLsbD j = false := by
  induction bits generalizing r with
  | nil =>
    have hr : r = 0#w := h
    simp [hr]
  | cons b bits ih =>
    simp only [List.length_cons] at hl
    obtain ⟨hhigh, hlow⟩ := ih (feed poly r b) (by omega) h
    have hclear := hlow 0 (by omega)
    obtain ⟨hb, hshift⟩ := feed_low_clear poly h0 r b hclear
    rw [hshift] at hhigh hlow
    constructor
    · intro i hi
      cases i with
      | zero => simpa [BitVec.msb_eq_getLsbD_last] using hb
      | succ i =>
        have hi' : i < bits.length := by simpa using hi
        have hbit := hhigh i hi'
        rw [show w-1-i = (w-1-(i+1))+1 by omega, shift_high_bit r _ (by omega)] at hbit
        simpa using hbit
    · intro j hj
      simp only [List.length_cons] at hj
      have hbit := hlow (j+1) (by omega)
      rwa [shift_high_bit r j (by omega)] at hbit

theorem feeds_empties_zero (h0 : poly.getLsbD 0 = true) (bits : List Bool)
    (hl : bits.length ≤ w) (h : feeds poly 0#w bits = 0#w) :
    ∀ b ∈ bits, b = false := by
  intro b hb
  obtain ⟨i, hi, rfl⟩ := List.mem_iff_getElem.mp hb
  simpa using (feeds_empties poly h0 bits 0#w hl h).1 i hi

theorem width_pos (h0 : poly.getLsbD 0 = true) : 0 < w := by
  by_contra hn
  rw [BitVec.getLsbD_of_ge poly 0 (by omega)] at h0
  exact Bool.false_ne_true h0

theorem advance_eq_zero (h0 : poly.getLsbD 0 = true) (r : BitVec w)
    (h : advance poly r = 0#w) : r = 0#w := by
  have hw := width_pos poly h0
  obtain ⟨hhigh, hlow⟩ := feeds_empties poly h0 [false] r hw h
  apply BitVec.eq_of_getLsbD_eq
  intro i hi
  by_cases hlast : i = w-1
  · have hbit := hhigh 0 (by simp)
    simpa [hlast] using hbit.symm
  · simpa using hlow i (by simp; omega)

theorem iterate_eq_zero (h0 : poly.getLsbD 0 = true) (n : ℕ) (r : BitVec w)
    (h : (advance poly)^[n] r = 0#w) : r = 0#w := by
  induction n generalizing r with
  | zero => exact h
  | succ n ih => exact advance_eq_zero poly h0 r (ih _ h)

theorem feeds_idle_tail (h0 : poly.getLsbD 0 = true) (bits : List Bool) (n : ℕ)
    (h : feeds poly 0#w (bits ++ List.replicate n false) = 0#w) :
    feeds poly 0#w bits = 0#w := by
  rw [feeds_append, feeds_replicate] at h
  exact iterate_eq_zero poly h0 n _ h

theorem feeds_idle_head (n : ℕ) (bits : List Bool) :
    feeds poly 0#w (List.replicate n false ++ bits) = feeds poly 0#w bits := by
  rw [feeds_append, feeds_zero]

/-! ## The register as its own check word -/

def leadingBits (r : BitVec w) (n : ℕ) : List Bool :=
  (List.range n).map (fun i => r.getLsbD (w-1-i))

theorem leadingBits_length (r : BitVec w) (n : ℕ) : (leadingBits r n).length = n := by
  simp [leadingBits]

theorem feeds_leadingBits (r : BitVec w) (n : ℕ) (hn : n ≤ w) :
    feeds poly r (leadingBits r n) = r <<< n := by
  induction n with
  | zero => simp [leadingBits]
  | succ n ih =>
    have hbits : leadingBits r (n+1) = leadingBits r n ++ [r.getLsbD (w-1-n)] := by
      simp [leadingBits, List.range_succ]
    have hmsb : (r <<< n).msb = r.getLsbD (w-1-n) := by
      rw [BitVec.msb_eq_getLsbD_last, BitVec.getLsbD_shiftLeft]
      simp [show w-1 < w by omega, show ¬ w-1 < n by omega]
    rw [hbits, feeds_append, ih (by omega), feeds_cons, feeds_nil, feed, hmsb, Bool.xor_self,
      if_neg Bool.false_ne_true, ← BitVec.shiftLeft_add]

theorem check_word_iff (h0 : poly.getLsbD 0 = true) (data : List Bool) (word : BitVec w) :
    feeds poly 0#w (data ++ leadingBits word w) = 0#w ↔ word = feeds poly 0#w data := by
  rw [feeds_append]
  constructor
  · intro h
    have hbits := (feeds_empties poly h0 _ _ (by simp [leadingBits_length]) h).1
    apply BitVec.eq_of_getLsbD_eq
    intro i hi
    have hbit := hbits (w-1-i) (by rw [leadingBits_length]; omega)
    have hi' : w-1-(w-1-i) = i := by omega
    simpa [leadingBits, hi'] using hbit
  · intro h
    rw [← h, feeds_leadingBits poly word w le_rfl, BitVec.shiftLeft_eq_zero le_rfl]

/-! ## Parity -/

def parityBelow (r : BitVec w) : ℕ → Bool
  | 0 => false
  | n+1 => parityBelow r n ^^ r.getLsbD n

theorem parityBelow_xor (r s : BitVec w) (n : ℕ) :
    parityBelow (r ^^^ s) n = (parityBelow r n ^^ parityBelow s n) := by
  induction n with
  | zero => rfl
  | succ n ih =>
    simp only [parityBelow, ih, BitVec.getLsbD_xor]
    cases parityBelow r n <;> cases parityBelow s n <;> simp

theorem parityBelow_shift (r : BitVec w) (n : ℕ) (hn : n+1 ≤ w) :
    parityBelow (r <<< 1) (n+1) = parityBelow r n := by
  induction n with
  | zero => simp [parityBelow]
  | succ n ih =>
    rw [parityBelow, ih (by omega), shift_high_bit r n (by omega), parityBelow]

theorem parityBelow_feed (hp : parityBelow poly w = true) (hw : 0 < w)
    (r : BitVec w) (b : Bool) :
    parityBelow (feed poly r b) w = (parityBelow r w ^^ b) := by
  obtain ⟨k, rfl⟩ : ∃ k, w = k+1 := ⟨w-1, by omega⟩
  have hr : parityBelow r (k+1) = (parityBelow r k ^^ r.msb) := by
    rw [parityBelow, BitVec.msb_eq_getLsbD_last]
    rfl
  have hs := parityBelow_shift r k le_rfl
  rw [hr]
  unfold feed
  split
  · rename_i hb
    rw [parityBelow_xor, hs, hp]
    cases b <;> cases hm : r.msb <;> simp_all
  · rename_i hb
    rw [hs]
    cases b <;> cases hm : r.msb <;> simp_all

theorem parityBelow_feeds (hp : parityBelow poly w = true) (hw : 0 < w)
    (bits : List Bool) (r : BitVec w) :
    parityBelow (feeds poly r bits) w = (parityBelow r w ^^ (bits.count true).bodd) := by
  induction bits generalizing r with
  | nil => simp
  | cons b bits ih =>
    rw [feeds_cons, ih, parityBelow_feed poly hp hw]
    cases b <;> simp

theorem parityBelow_zero (n : ℕ) : parityBelow 0#w n = false := by
  induction n with
  | zero => rfl
  | succ n ih => simp [parityBelow, ih]

/-- A divisor with an even number of terms detects every odd pattern. -/
theorem odd_detected (hp : parityBelow poly w = true) (hw : 0 < w) (bits : List Bool)
    (hodd : Odd (bits.count true)) : feeds poly 0#w bits ≠ 0#w := by
  intro h
  have hpar := parityBelow_feeds poly hp hw bits 0#w
  rw [h, parityBelow_zero, Bool.false_xor] at hpar
  obtain ⟨k, hk⟩ := hodd
  simp [hk, show Nat.bodd 2 = false from rfl] at hpar

/-! ## Bursts -/

theorem all_false {bits : List Bool} (h : true ∉ bits) :
    bits = List.replicate bits.length false := by
  rw [List.eq_replicate_iff]
  constructor
  · rfl
  · intro b hb
    cases b with
    | false => rfl
    | true => exact absurd hb h

theorem idle_split_detected (h0 : poly.getLsbD 0 = true) (before window after : List Bool)
    (hbefore : true ∉ before) (hafter : true ∉ after) (hl : window.length ≤ w)
    (hne : true ∈ window) : feeds poly 0#w (before ++ (window ++ after)) ≠ 0#w := by
  intro h
  rw [all_false hbefore, all_false hafter, feeds_idle_head] at h
  have hwin := feeds_empties_zero poly h0 window hl (feeds_idle_tail poly h0 window _ h)
  exact Bool.false_ne_true (hwin true hne).symm

/-- A nonempty pattern inside one window of the register's width is detected. -/
theorem burst_detected (h0 : poly.getLsbD 0 = true) (bits : List Bool) (a : ℕ)
    (hout : ∀ i (hi : i < bits.length), bits[i] = true → a ≤ i ∧ i < a+w)
    (hne : true ∈ bits) : feeds poly 0#w bits ≠ 0#w := by
  have hbefore : true ∉ bits.take a := by
    intro hm
    obtain ⟨i, hi, hb⟩ := List.mem_iff_getElem.mp hm
    rw [List.length_take] at hi
    have := hout i (by omega) (by simpa using hb)
    omega
  have hafter : true ∉ (bits.drop a).drop w := by
    intro hm
    obtain ⟨i, hi, hb⟩ := List.mem_iff_getElem.mp hm
    simp only [List.length_drop] at hi
    have := hout (a+(w+i)) (by omega) (by simpa [Nat.add_assoc] using hb)
    omega
  have hsplit : bits = bits.take a ++ ((bits.drop a).take w ++ (bits.drop a).drop w) := by
    rw [List.take_append_drop, List.take_append_drop]
  have hwindow : true ∈ (bits.drop a).take w := by
    rw [hsplit] at hne
    simp only [List.mem_append] at hne
    tauto
  rw [hsplit]
  exact idle_split_detected poly h0 _ _ _ hbefore hafter (List.length_take_le _ _) hwindow

/-! ## Pairs -/

def top (w : ℕ) : BitVec w := BitVec.twoPow w (w-1)

theorem eq_top_of_feed_true (h0 : poly.getLsbD 0 = true) (r : BitVec w)
    (h : feed poly r true = 0#w) : r = top w := by
  have hw := width_pos poly h0
  obtain ⟨hhigh, hlow⟩ := feeds_empties poly h0 [true] r hw h
  apply BitVec.eq_of_getLsbD_eq
  intro i hi
  rw [top, BitVec.getLsbD_twoPow]
  by_cases hlast : i = w-1
  · have hbit := hhigh 0 (by simp)
    simpa [hlast, show w-1 < w by omega] using hbit.symm
  · have hbit := hlow i (by simp; omega)
    rw [hbit]
    simp [show ¬ w-1 = i by omega]

theorem feed_zero_true (hw : 0 < w) : feed poly 0#w true = advance poly (top w) := by
  have hmsb : (top w).msb = true := by
    simp [top, BitVec.msb_twoPow, hw]
  have hshift : top w <<< 1 = 0#w := by
    apply BitVec.eq_of_getLsbD_eq
    intro i hi
    rw [BitVec.getLsbD_shiftLeft, top, BitVec.getLsbD_twoPow]
    simp
    omega
  simp [advance, feed, hmsb, hshift]

def NeverReturns (n : ℕ) : Prop := ∀ k, 0 < k → k ≤ n → (advance poly)^[k] (top w) ≠ top w

theorem first_true (bits : List Bool) (k : ℕ) (h : bits.count true = k+1) :
    ∃ n rest, bits = List.replicate n false ++ true :: rest ∧ rest.count true = k := by
  induction bits with
  | nil => simp at h
  | cons b bits ih =>
    cases b with
    | true => exact ⟨0, bits, rfl, by simpa using h⟩
    | false =>
      obtain ⟨n, rest, hbits, hrest⟩ := ih (by simpa using h)
      exact ⟨n+1, rest, by rw [hbits]; rfl, hrest⟩

/-- Two flipped bits are detected as long as their distance is below the
period of the idle register. -/
theorem pair_detected (h0 : poly.getLsbD 0 = true) (bits : List Bool) (n : ℕ)
    (hn : NeverReturns poly n) (hl : bits.length ≤ n+1) (hpair : bits.count true = 2) :
    feeds poly 0#w bits ≠ 0#w := by
  have hw := width_pos poly h0
  obtain ⟨a, tail, rfl, htail⟩ := first_true bits 1 hpair
  obtain ⟨d, rest, rfl, hrest⟩ := first_true tail 0 htail
  rw [all_false (List.count_eq_zero.mp hrest)]
  intro h
  rw [feeds_idle_head, feeds_cons, feeds_append, feeds_cons, feeds_replicate, feeds_replicate] at h
  have hr := eq_top_of_feed_true poly h0 _ (iterate_eq_zero poly h0 _ _ h)
  rw [feed_zero_true poly hw] at hr
  simp only [List.length_append, List.length_replicate, List.length_cons] at hl
  exact hn (d+1) (by omega) (by omega) hr

def avoids (target : BitVec w) : ℕ → BitVec w → Bool
  | 0, _ => true
  | n+1, r => advance poly r != target && avoids target n (advance poly r)

theorem avoids_iterate (target : BitVec w) (n : ℕ) (r : BitVec w)
    (h : avoids poly target n r = true) :
    ∀ k, 0 < k → k ≤ n → (advance poly)^[k] r ≠ target := by
  induction n generalizing r with
  | zero => intro k hk hn; omega
  | succ n ih =>
    simp only [avoids, Bool.and_eq_true, bne_iff_ne] at h
    intro k hk hn
    obtain ⟨j, rfl⟩ : ∃ j, k = j+1 := ⟨k-1, by omega⟩
    cases j with
    | zero => exact h.1
    | succ j => exact ih _ h.2 (j+1) (by omega) (by omega)

end Wingray.CrcRegister
