import Wingray.GuardedRun

/-!
# Counting along a run

`tally` adds up what the steps of a run cost, `since` what the steps cost after
the last one that resets the count. A potential that pays for every step, apart
from the credit that some steps bring, bounds the first; an account of what
every state allows bounds the second.
-/

set_option autoImplicit false

namespace Wingray.RunTally
open Wingray.GuardedRun

variable {S L : Type*} (step : S → L → Option S)

def tally (cost : S → L → ℕ) : S → List L → ℕ
  | _, [] => 0
  | s, l::ls => cost s l + (match step s l with
    | some s' => tally cost s' ls
    | none => 0)

def since (cost : S → L → ℕ) (reset : S → L → Bool) : ℕ → S → List L → ℕ
  | n, _, [] => n
  | n, s, l::ls => match step s l with
    | some s' => since cost reset (if reset s l then 0 else n+cost s l) s' ls
    | none => n

variable {step} {ok : S → L → Prop} {s t : S} {ls : List L}

theorem tally_cons (cost : S → L → ℕ) {s' : S} {l : L} (hs : step s l = some s') :
    tally step cost s (l::ls) = cost s l+tally step cost s' ls := by
  rw [tally, hs]

theorem since_cons (cost : S → L → ℕ) (reset : S → L → Bool) (n : ℕ) {s' : S} {l : L}
    (hs : step s l = some s') : since step cost reset n s (l::ls) =
      since step cost reset (if reset s l then 0 else n+cost s l) s' ls := by
  rw [since, hs]

theorem tally_mul (c : ℕ) (cost : S → L → ℕ) (s : S) (ls : List L) :
    tally step (fun s l => c*cost s l) s ls = c*tally step cost s ls := by
  induction ls generalizing s with
  | nil => rfl
  | cons l ls ih =>
    simp only [tally]
    rw [Nat.mul_add]
    congr 1
    cases step s l with
    | none => rfl
    | some s' => exact ih s'

/-- Cost and potential together grow by no more than the credit. -/
theorem tally_le (Inv : S → Prop) (potential : S → ℕ) (cost credit : S → L → ℕ)
    (hstep : ∀ s l s', Inv s → ok s l → step s l = some s' →
      cost s l+potential s' ≤ potential s+credit s l ∧ Inv s')
    (hr : Run step ok s ls t) (hs : Inv s) :
    tally step cost s ls+potential t ≤ potential s+tally step credit s ls := by
  induction hr with
  | nil s => simp [tally]
  | cons hl ho _ ih =>
    obtain ⟨hpaid, hinv⟩ := hstep _ _ _ hs ho hl
    have htail := ih hinv
    rw [tally_cons cost hl, tally_cons credit hl]
    omega

theorem since_le (Inv : S → Prop) (allowance : S → ℕ) (cost : S → L → ℕ) (reset : S → L → Bool)
    (hstep : ∀ s l s', Inv s → ok s l → step s l = some s' →
      (reset s l = false → allowance s+cost s l ≤ allowance s') ∧ Inv s')
    (hr : Run step ok s ls t) (hs : Inv s) (n : ℕ) (hn : n ≤ allowance s) :
    since step cost reset n s ls ≤ allowance t := by
  induction hr generalizing n with
  | nil s => exact hn
  | cons hl ho _ ih =>
    obtain ⟨hgrow, hinv⟩ := hstep _ _ _ hs ho hl
    rw [since_cons cost reset n hl]
    apply ih hinv
    split_ifs with hreset
    · exact Nat.zero_le _
    · have := hgrow (Bool.eq_false_iff.mpr hreset)
      omega

end Wingray.RunTally
