import Mathlib.Tactic

/-!
# What a computation that may stop guarantees

A computation either returns a value or stops with a reason. `Meets E P x` says that
a returned value has `P` and that a stop has only a reason that `E` allows.
-/

set_option autoImplicit false

namespace Wingray.OutcomeLogic

universe u v

variable {ε : Type u} {β γ : Type v}

def Meets (E : ε → Prop) (P : β → Prop) : Except ε β → Prop
  | .ok b => P b
  | .error e => E e

variable {E E' : ε → Prop} {P Q : β → Prop}

theorem Meets.mono {x : Except ε β} (hx : Meets E Q x) (he : ∀ e, E e → E' e)
    (hp : ∀ b, Q b → P b) : Meets E' P x := by
  cases x with
  | ok b => exact hp b hx
  | error e => exact he e hx

theorem Meets.weaken {x : Except ε β} (hx : Meets E Q x) (hp : ∀ b, Q b → P b) :
    Meets E P x :=
  hx.mono (fun _ he => he) hp

theorem Meets.bind {P : γ → Prop} {x : Except ε β} {f : β → Except ε γ} (hx : Meets E Q x)
    (hf : ∀ b, Q b → Meets E P (f b)) : Meets E P (x >>= f) := by
  cases x with
  | ok b => exact hf b hx
  | error e => exact hx

theorem Meets.and {x : Except ε β} (hx : Meets E Q x) (hy : Meets (fun _ => True) P x) :
    Meets E (fun b => Q b ∧ P b) x := by
  cases x with
  | ok b => exact ⟨hx, hy⟩
  | error e => exact hx

@[simp] theorem meets_ok {b : β} : Meets E P (.ok b) ↔ P b := Iff.rfl

@[simp] theorem meets_pure {b : β} : Meets E P (pure b) ↔ P b := Iff.rfl

@[simp] theorem ok_bind {b : β} {f : β → Except ε γ} : (Except.ok b >>= f) = f b := rfl

@[simp] theorem pure_bind {b : β} {f : β → Except ε γ} : (pure b >>= f) = f b := rfl

theorem Meets.ite {c : Prop} [Decidable c] {x y : Except ε β} (hx : c → Meets E P x)
    (hy : ¬c → Meets E P y) : Meets E P (if c then x else y) := by
  split
  case isTrue hc => exact hx hc
  case isFalse hc => exact hy hc

end Wingray.OutcomeLogic
