import Mathlib.Tactic

/-!
# A condition variable with one waiter

The shared fields change only in sections under the mutex, each of which is
one step. To wait is to release the mutex and to fall asleep in one step.
-/

set_option autoImplicit false

namespace Wingray.ConditionVariable

/-- `signalled` is a wake-up that is on its way. -/
inductive Waiter (π : Type*)
  | awake (pc : π)
  | asleep (signalled : Bool)
  deriving DecidableEq

structure Monitor (σ π : Type*) where
  shared : σ
  waiter : Waiter π

variable {σ π : Type*}

def Waiter.signal : Waiter π → Waiter π
  | .awake pc => .awake pc
  | .asleep _ => .asleep true

namespace Monitor

def notify (m : Monitor σ π) (f : σ → σ) : Monitor σ π := ⟨f m.shared, m.waiter.signal⟩

def wait (m : Monitor σ π) : Monitor σ π := { m with waiter := .asleep false }

def resume (m : Monitor σ π) (pc : π) : Monitor σ π := { m with waiter := .awake pc }

def Asleep (m : Monitor σ π) : Prop := ∃ signalled, m.waiter = .asleep signalled

/-- Without a wake-up on its way, a waiter sleeps only on what it has to wait
for. -/
def NoneLost (mustWait : σ → Prop) (m : Monitor σ π) : Prop :=
  m.waiter = .asleep false → mustWait m.shared

variable {mustWait : σ → Prop} {m : Monitor σ π}

theorem notify_noneLost (f : σ → σ) : NoneLost mustWait (m.notify f) := by
  intro h
  cases hw : m.waiter <;> simp [notify, Waiter.signal, hw] at h

theorem wait_noneLost (h : mustWait m.shared) : NoneLost mustWait m.wait := fun _ => h

theorem resume_noneLost (pc : π) : NoneLost mustWait (m.resume pc) := fun h => nomatch h

theorem notify_asleep {f : σ → σ} : (m.notify f).Asleep ↔ m.Asleep := by
  cases hw : m.waiter <;> simp [notify, Asleep, Waiter.signal, hw]

theorem resume_not_asleep (pc : π) : ¬ (m.resume pc).Asleep := by
  rintro ⟨_, h⟩
  cases h

end Monitor

end Wingray.ConditionVariable
