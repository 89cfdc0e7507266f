import Mathlib.Tactic

/-!
# Binary search between two bounds

`c i` tells how the entry `i` compares with what is looked for. The bounds are both
within the search, so the upper one may lie just below the lower one.
-/

set_option autoImplicit false

namespace Wingray.BinarySearch

/-- The entry that was found, if any, and where the search ended. -/
def search (c : ℤ → ℤ) (l h : ℤ) : Option ℤ × ℤ :=
  if l ≤ h then
    if c (l+(h-l)/2) = 0 then (some (l+(h-l)/2), l+(h-l)/2)
    else if c (l+(h-l)/2) < 0 then search c (l+(h-l)/2+1) h
    else search c l (l+(h-l)/2-1)
  else (none, l)
termination_by (h+1-l).toNat
decreasing_by all_goals omega

structure Split (c : ℤ → ℤ) (n : ℤ) : Prop where
  below : ∀ i j, 0 ≤ i → i ≤ j → j < n → c j < 0 → c i < 0
  above : ∀ i j, 0 ≤ i → i ≤ j → j < n → 0 < c i → 0 < c j

/-- What a search answers: an entry that compares equal, or the place between those
below and those above. -/
def Located (c : ℤ → ℤ) (n : ℤ) (r : Option ℤ × ℤ) : Prop :=
  0 ≤ r.2 ∧
  match r.1 with
  | some m => r.2 = m ∧ m < n ∧ c m = 0
  | none => r.2 ≤ n ∧ (∀ i, 0 ≤ i → i < r.2 → c i < 0) ∧ ∀ i, r.2 ≤ i → i < n → 0 < c i

variable {c : ℤ → ℤ} {n : ℤ}

theorem search_located (hs : Split c n) (l h : ℤ) (hl : 0 ≤ l) (hle : l ≤ h+1) (hh : h < n)
    (hbelow : ∀ i, 0 ≤ i → i < l → c i < 0) (habove : ∀ i, h < i → i < n → 0 < c i) :
    Located c n (search c l h) := by
  fun_induction search c l h with
  | case1 l h hlh hzero => exact ⟨by omega, rfl, by omega, hzero⟩
  | case2 l h hlh hzero hneg ih =>
    refine ih (by omega) (by omega) hh ?_ habove
    intro i hi him
    exact hs.below i _ hi (by omega) (by omega) hneg
  | case3 l h hlh hzero hneg ih =>
    refine ih hl (by omega) (by omega) hbelow ?_
    intro i hmi hin
    exact hs.above (l+(h-l)/2) i (by omega) (by omega) hin (by omega)
  | case4 l h hlh => exact ⟨hl, by omega, hbelow, fun i hi hin => habove i (by omega) hin⟩

theorem search_all (hs : Split c n) (hn : 0 ≤ n) : Located c n (search c 0 (n-1)) := by
  refine search_located hs 0 (n-1) le_rfl (by omega) (by omega) ?_ ?_
  · intro i hi hlt
    omega
  · intro i hi hlt
    omega

end Wingray.BinarySearch
