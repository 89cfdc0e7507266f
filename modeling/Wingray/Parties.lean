import Mathlib.Tactic

/-!
# What parties hold between them

Each of finitely many parties is in a state of its own and a step changes one of them.
A quantity of the states is added up over the parties: the total changes by what it
changes at the one that moved.
-/

set_option autoImplicit false

namespace Wingray.Parties

variable {ι P : Type*} [Fintype ι]

def total (m : P → ℤ) (f : ι → P) : ℤ := ∑ i, m (f i)

variable {m n : P → ℤ} {f : ι → P} {i j : ι}

theorem le_total (hm : ∀ p, 0 ≤ m p) (i : ι) : m (f i) ≤ total m f :=
  Finset.single_le_sum (fun k _ => hm (f k)) (Finset.mem_univ i)

theorem total_nonneg (hm : ∀ p, 0 ≤ m p) : 0 ≤ total m f :=
  Finset.sum_nonneg (fun k _ => hm (f k))

theorem total_le (h : ∀ p, m p ≤ n p) : total m f ≤ total n f :=
  Finset.sum_le_sum (fun i _ => h (f i))

theorem total_alone (h : ∀ j, j ≠ i → m (f j) = 0) : total m f = m (f i) :=
  Finset.sum_eq_single_of_mem i (Finset.mem_univ i) (fun j _ hj => h j hj)

theorem total_zero (h : ∀ i, m (f i) = 0) : total m f = 0 :=
  Finset.sum_eq_zero (fun i _ => h i)

theorem exists_of_total_pos (h : 0 < total m f) : ∃ i, 0 < m (f i) := by
  obtain ⟨i, -, hi⟩ := Finset.exists_lt_of_sum_lt
    (show ∑ i : ι, (0 : ℤ) < ∑ i, m (f i) by simpa [total] using h)
  exact ⟨i, hi⟩

theorem total_sub (m n : P → ℤ) (f : ι → P) :
    total (fun p => m p-n p) f = total m f-total n f :=
  Finset.sum_sub_distrib (fun i => m (f i)) (fun i => n (f i))

variable [DecidableEq ι]

theorem total_update (m : P → ℤ) (f : ι → P) (i : ι) (p : P) :
    total m (Function.update f i p) = total m f-m (f i)+m p := by
  have hafter := Finset.add_sum_erase Finset.univ (fun k => m (Function.update f i p k))
    (Finset.mem_univ i)
  have hbefore := Finset.add_sum_erase Finset.univ (fun k => m (f k)) (Finset.mem_univ i)
  have hrest : ∑ k ∈ Finset.univ.erase i, m (Function.update f i p k) =
      ∑ k ∈ Finset.univ.erase i, m (f k) := by
    refine Finset.sum_congr rfl fun k hk => ?_
    rw [Function.update_of_ne (Finset.ne_of_mem_erase hk)]
  simp only [Function.update_self, hrest] at hafter
  simp only [total]
  omega

theorem pair_le_total (hm : ∀ p, 0 ≤ m p) (hij : i ≠ j) : m (f i)+m (f j) ≤ total m f := by
  rw [total, ← Finset.add_sum_erase _ (fun k => m (f k)) (Finset.mem_univ i)]
  have hj : j ∈ Finset.univ.erase i := Finset.mem_erase.mpr ⟨hij.symm, Finset.mem_univ j⟩
  have hle := Finset.single_le_sum (fun k _ => hm (f k)) hj
  exact (add_le_add_iff_left _).mpr hle

end Wingray.Parties
