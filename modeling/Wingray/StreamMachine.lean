import Mathlib.Tactic

/-!
# Stream machines and their outstanding output

A machine answers each item of its input with items of output. A consumer that
works through the input in portions of its own yields that output when what it
has returned and what the machine still owes always make up the whole.
-/

set_option autoImplicit false

namespace Wingray.StreamMachine

variable {σ α β : Type*}

structure Machine (σ α β : Type*) where
  step : σ → α → List β × σ

def Machine.output (m : Machine σ α β) : σ → List α → List β
  | _, [] => []
  | s, x::xs => (m.step s x).1 ++ m.output (m.step s x).2 xs

/-- From state `s` with `xs` at hand, `out` leads to state `s'` with `xs'` at
hand, whatever follows. -/
def Machine.Yields (m : Machine σ α β) (s : σ) (xs : List α) (out : List β) (s' : σ)
    (xs' : List α) : Prop :=
  ∀ future, m.output s (xs ++ future) = out ++ m.output s' (xs' ++ future)

section Rules

variable {m : Machine σ α β} {s s' s'' : σ} {xs xs' xs'' : List α} {out out' : List β}

theorem yields_refl (m : Machine σ α β) (s : σ) (xs : List α) : m.Yields s xs [] s xs :=
  fun _ => rfl

theorem yields_step (m : Machine σ α β) (s : σ) (x : α) (xs : List α) :
    m.Yields s (x::xs) (m.step s x).1 (m.step s x).2 xs :=
  fun _ => rfl

theorem Machine.Yields.trans (h : m.Yields s xs out s' xs') (h' : m.Yields s' xs' out' s'' xs'') :
    m.Yields s xs (out ++ out') s'' xs'' := by
  intro future
  rw [h, h', List.append_assoc]

theorem Machine.Yields.deliver (h : m.Yields s xs out s' xs') (ys : List α) :
    m.Yields s (xs ++ ys) out s' (xs' ++ ys) := by
  intro future
  rw [List.append_assoc, List.append_assoc]
  exact h (ys ++ future)

theorem Machine.Yields.exhausted (h : m.Yields s xs out s' []) : out = m.output s xs := by
  have hall := h []
  rwa [List.append_nil, List.append_nil, Machine.output, List.append_nil, eq_comm] at hall

end Rules

/-! ## Portions -/

/-- At most `count` items of output, and fewer only when nothing is left at
hand. -/
structure Portion (count : ℕ) (out : List β) (xs : List α) : Prop where
  within : out.length ≤ count
  short : out.length < count → xs = []

section Portions

variable {count room : ℕ} {out out' : List β} {xs : List α}

theorem portion_full (hc : out.length = count) (xs : List α) : Portion count out xs :=
  ⟨hc.le, fun h => absurd hc h.ne⟩

theorem Portion.append (h : Portion room out' xs) (hc : out.length+room = count) :
    Portion count (out ++ out') xs := by
  have hwithin := h.within
  constructor
  · rw [List.length_append]
    omega
  · intro hshort
    rw [List.length_append] at hshort
    exact h.short (by omega)

theorem Portion.cons (h : Portion (count-1) out xs) (hc : count ≠ 0) (y : β) :
    Portion count (y::out) xs := by
  have hone : [y].length+(count-1) = count := by
    rw [List.length_singleton]
    omega
  exact h.append hone

end Portions

end Wingray.StreamMachine
