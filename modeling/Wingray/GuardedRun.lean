import Mathlib.Tactic

/-!
# Runs of a partial step function under a condition

A label resolves every choice of one step, so the step itself is a function.
`ok` is the condition that the steps of the run are required to meet; with a
trivial condition a run is an arbitrary one.
-/

set_option autoImplicit false

namespace Wingray.GuardedRun

variable {S L : Type*} (step : S → L → Option S) (ok : S → L → Prop)

inductive Run : S → List L → S → Prop
  | nil (s : S) : Run s [] s
  | cons {s s' t : S} {l : L} {ls : List L} (hs : step s l = some s') (ho : ok s l)
      (hr : Run s' ls t) : Run s (l::ls) t

variable {step ok}

/-- What one step under the condition preserves holds in every state reached. -/
theorem Run.invariant (Inv : S → Prop) {s t : S} {ls : List L}
    (hstep : ∀ s l s', Inv s → ok s l → step s l = some s' → Inv s')
    (hr : Run step ok s ls t) (hs : Inv s) : Inv t := by
  induction hr with
  | nil => exact hs
  | cons hl ho _ ih => exact ih (hstep _ _ _ hs ho hl)

/-- Under an invariant one condition on the steps of a run gives another. -/
theorem Run.transfer {ok' : S → L → Prop} (Inv : S → Prop) {s t : S} {ls : List L}
    (hstep : ∀ s l s', Inv s → ok s l → step s l = some s' → ok' s l ∧ Inv s')
    (hr : Run step ok s ls t) (hs : Inv s) : Run step ok' s ls t := by
  induction hr with
  | nil s => exact .nil s
  | cons hl ho _ ih =>
    obtain ⟨ho', hi⟩ := hstep _ _ _ hs ho hl
    exact .cons hl ho' (ih hi)

theorem Run.restrict {P : L → Prop} {s t : S} {ls : List L} (hr : Run step ok s ls t)
    (h : ∀ l ∈ ls, P l) : Run step (fun s l => ok s l ∧ P l) s ls t := by
  induction hr with
  | nil s => exact .nil s
  | cons hl ho _ ih =>
    exact .cons hl ⟨ho, h _ List.mem_cons_self⟩ (ih (fun l hm => h l (List.mem_cons_of_mem _ hm)))

/-- What holds of every state that a run passes through may be added to the
condition on its steps. -/
theorem Run.visits {P : S → Prop} {s t : S} {ls : List L} (hr : Run step ok s ls t)
    (h : ∀ ks ms u, ls = ks ++ ms → Run step ok s ks u → P u) :
    Run step (fun s l => ok s l ∧ P s) s ls t := by
  induction hr with
  | nil s => exact .nil s
  | cons hl ho _ ih =>
    apply Run.cons hl ⟨ho, h [] _ _ rfl (.nil _)⟩
    apply ih
    intro ks ms u hks hu
    exact h (_::ks) ms u (by rw [hks, List.cons_append]) (.cons hl ho hu)

theorem Run.split {s t : S} {ls ks : List L} (hr : Run step ok s (ls++ks) t) :
    ∃ u, Run step ok s ls u ∧ Run step ok u ks t := by
  induction ls generalizing s with
  | nil => exact ⟨s, .nil s, hr⟩
  | cons l ls ih =>
    cases hr with
    | cons hl ho hr =>
      obtain ⟨u, hu, hk⟩ := ih hr
      exact ⟨u, .cons hl ho hu, hk⟩

theorem Run.append {s t u : S} {ls ks : List L} (hr : Run step ok s ls t)
    (hk : Run step ok t ks u) : Run step ok s (ls++ks) u := by
  induction hr with
  | nil => exact hk
  | cons hl ho _ ih => exact .cons hl ho (ih hk)

theorem Run.last {s t : S} {ls : List L} {l : L} (hr : Run step ok s (ls ++ [l]) t) :
    ∃ u, Run step ok s ls u ∧ ok u l ∧ step u l = some t := by
  obtain ⟨u, hu, hlast⟩ := hr.split
  cases hlast with
  | cons hl ho hr =>
    cases hr with
    | nil => exact ⟨u, hu, ho, hl⟩

variable (step ok) [∀ s l, Decidable (ok s l)]

def final : S → List L → Option S
  | s, [] => some s
  | s, l::ls => if ok s l then (step s l).bind (fun s' => final s' ls) else none

variable {step ok}

theorem final_run {s t : S} {ls : List L} (h : final step ok s ls = some t) :
    Run step ok s ls t := by
  induction ls generalizing s with
  | nil =>
    obtain rfl : s = t := by simpa [final] using h
    exact .nil s
  | cons l ls ih =>
    rw [final] at h
    split_ifs at h with ho
    obtain ⟨s', hs, hf⟩ := Option.bind_eq_some_iff.mp h
    exact .cons hs ho (ih hf)

omit [∀ s l, Decidable (ok s l)] in
theorem run_final {s t : S} {ls : List L} (hr : Run step ok s ls t) :
    final step (fun _ _ => True) s ls = some t := by
  induction hr with
  | nil s => rfl
  | cons hl _ _ ih =>
    rw [final, if_pos trivial, hl]
    exact ih

end Wingray.GuardedRun
