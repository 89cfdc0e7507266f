import Mathlib.Tactic

/-!
# Reference-counted objects

An object and its `weakref_impl`, shared by any number of threads. Every method is cut
at its accesses to the shared counts, each of which is atomic; between two of them any
other thread may run. The reference tracking and the assertions of a debug build are
not compiled in, and the hooks of the object do nothing but count their calls.
-/

set_option autoImplicit false

namespace Wingray.RefBase

def initialStrongValue : ℤ := 2^28

def int32 (x : ℤ) : ℤ := Int.bmod x (2^32)

structure Modes where
  objectLifetimeStrong : BitVec 32
  objectLifetimeWeak : BitVec 32
  objectLifetimeMask : BitVec 32

structure Shared where
  mStrong : ℤ
  mWeak : ℤ
  mFlags : BitVec 32
  /-- The object is not destroyed. -/
  object : Bool
  /-- The `weakref_impl` is not deleted. -/
  refs : Bool
  /-- Something deleted was used. -/
  fault : Bool
  firstRefs : ℕ
  lastStrongRefs : ℕ
  lastWeakRefs : ℕ

inductive Aim where
  | copy
  | create
  | strong (force : Bool)
  | promotion
  deriving DecidableEq

/-- Where a thread is: what it does next to the counts. -/
inductive Point where
  | idle
  | incWeak (aim : Aim)
  | incStrong (force : Bool)
  | subtract
  | onFirstRef
  | decStrong
  | onLastStrongRef
  | destroy (releases : Bool)
  | destroyWeak (releases : Bool)
  | decWeak
  | lastWeak
  | promote
  | promoteFrom (curCount : ℤ)
  | promoteFirst (curCount : ℤ)
  | promoteAgain
  | onIncStrongAttempted
  | revive
  | dropUnneeded
  | settle
  | settleFrom (curCount : ℤ)
  | incWeakAttempt
  | incWeakFrom (curCount : ℤ)
  deriving DecidableEq

structure Thread where
  point : Point
  strongs : ℕ
  weaks : ℕ
  deriving DecidableEq

def Thread.empty : Thread := ⟨.idle, 0, 0⟩

@[simp] def Thread.goto (th : Thread) (p : Point) : Thread := { th with point := p }

@[simp] def Thread.addStrong (th : Thread) : Thread := { th with strongs := th.strongs+1 }

@[simp] def Thread.addWeak (th : Thread) : Thread := { th with weaks := th.weaks+1 }

@[simp] def Thread.loseStrong (th : Thread) : Thread := { th with strongs := th.strongs-1 }

@[simp] def Thread.loseWeak (th : Thread) : Thread := { th with weaks := th.weaks-1 }

def Thread.gainStrong (th : Thread) : Thread := th.addStrong.goto .idle

def Thread.gainWeak (th : Thread) : Thread := th.addWeak.goto .idle

inductive Op where
  | incStrong
  | forceIncStrong
  | decStrong
  | createWeak
  | incWeak
  | decWeak
  | attemptIncStrong
  | attemptIncWeak
  | delete

def Op.start (th : Thread) : Op → Thread
  | .incStrong => th.goto (.incWeak (.strong false))
  | .forceIncStrong => th.goto (.incWeak (.strong true))
  | .decStrong => th.loseStrong.goto .decStrong
  | .createWeak => th.goto (.incWeak .create)
  | .incWeak => th.goto (.incWeak .copy)
  | .decWeak => th.loseWeak.goto .decWeak
  | .attemptIncStrong => th.goto (.incWeak .promotion)
  | .attemptIncWeak => th.goto .incWeakAttempt
  | .delete => th.goto (.destroy false)

section Functions
variable (M : Modes)

/-- The object goes when its last strong reference does. -/
def Shared.regular (s : Shared) : Prop := s.mFlags &&& M.objectLifetimeWeak = M.objectLifetimeStrong

instance (s : Shared) : Decidable (s.regular M) := inferInstanceAs (Decidable (_ = _))

def Shared.masked (s : Shared) : BitVec 32 := s.mFlags &&& M.objectLifetimeMask

/-- `attemptIncStrong` after it has read the strong count. -/
def promoteAt (s : Shared) (curCount : ℤ) : Point :=
  if 0 < curCount ∧ curCount ≠ initialStrongValue then .promoteFrom curCount
  else if s.regular M then if curCount ≤ 0 then .decWeak else .promoteFirst curCount
  else .onIncStrongAttempted

/-- A reference that `onIncStrongAttempted` has taken may be one too many. -/
def promoted (curCount : ℤ) : Point :=
  if 0 < curCount ∧ curCount < initialStrongValue then .dropUnneeded else .settle

def destroyed (releases : Bool) : Point := if releases then .decWeak else .idle

/-- One step of a thread; `agrees` is the answer of `onIncStrongAttempted`. -/
def advance (agrees : Bool) (s : Shared) (th : Thread) : Shared × Thread :=
  match th.point with
  | .idle => (s, th)
  | .incWeak aim =>
    let s' := { s with mWeak := int32 (s.mWeak+1) }
    match aim with
    | .copy | .create => (s', th.gainWeak)
    | .strong force => (s', th.goto (.incStrong force))
    | .promotion => (s', th.goto .promote)
  | .incStrong force =>
    let c := s.mStrong
    let s' := { s with mStrong := int32 (c+1) }
    if c = initialStrongValue then (s', th.goto .subtract)
    else if force ∧ c = 0 then (s', th.goto .onFirstRef)
    else (s', th.gainStrong)
  | .subtract =>
    ({ s with mStrong := int32 (s.mStrong-initialStrongValue) }, th.goto .onFirstRef)
  | .onFirstRef => ({ s with firstRefs := s.firstRefs+1 }, th.gainStrong)
  | .decStrong =>
    let c := s.mStrong
    let s' := { s with mStrong := int32 (c-1) }
    if c = 1 then (s', th.goto .onLastStrongRef) else (s', th.goto .decWeak)
  | .onLastStrongRef =>
    let s' := { s with lastStrongRefs := s.lastStrongRefs+1 }
    if s.masked M = M.objectLifetimeStrong then (s', th.goto (.destroy true))
    else (s', th.goto .decWeak)
  | .destroy releases =>
    let s' := { s with object := false }
    if s.mStrong = initialStrongValue then ({ s' with refs := false }, th.goto (destroyed releases))
    else if s.masked M = M.objectLifetimeStrong then (s', th.goto (destroyed releases))
    else (s', th.goto (.destroyWeak releases))
  | .destroyWeak releases =>
    if s.mWeak = 0 then ({ s with refs := false }, th.goto (destroyed releases))
    else (s, th.goto (destroyed releases))
  | .decWeak =>
    let c := s.mWeak
    let s' := { s with mWeak := int32 (c-1) }
    if c = 1 then (s', th.goto .lastWeak) else (s', th.goto .idle)
  | .lastWeak =>
    if s.regular M then
      if s.mStrong = initialStrongValue then (s, th.goto (.destroy false))
      else ({ s with refs := false }, th.goto .idle)
    else
      let s' := { s with lastWeakRefs := s.lastWeakRefs+1 }
      if s.masked M = M.objectLifetimeWeak then (s', th.goto (.destroy false))
      else (s', th.goto .idle)
  | .promote => (s, th.goto (promoteAt M s s.mStrong))
  | .promoteFrom curCount =>
    if s.mStrong = curCount then
      ({ s with mStrong := int32 (curCount+1) }, th.goto .settle)
    else (s, th.goto .promote)
  | .promoteFirst curCount =>
    if s.mStrong = curCount then
      ({ s with mStrong := int32 (curCount+1) }, th.goto (promoted curCount))
    else (s, th.goto .promoteAgain)
  | .promoteAgain =>
    if 0 < s.mStrong then (s, th.goto (.promoteFirst s.mStrong)) else (s, th.goto .decWeak)
  | .onIncStrongAttempted => (s, th.goto (if agrees then .revive else .decWeak))
  | .revive =>
    ({ s with mStrong := int32 (s.mStrong+1) }, th.goto (promoted s.mStrong))
  | .dropUnneeded => ({ s with lastStrongRefs := s.lastStrongRefs+1 }, th.goto .settle)
  | .settle =>
    if initialStrongValue ≤ s.mStrong then (s, th.goto (.settleFrom s.mStrong))
    else (s, th.gainStrong)
  | .settleFrom curCount =>
    if s.mStrong = curCount then
      ({ s with mStrong := int32 (curCount-initialStrongValue) }, th.gainStrong)
    else (s, th.goto .settle)
  | .incWeakAttempt => (s, th.goto (if 0 < s.mWeak then .incWeakFrom s.mWeak else .idle))
  | .incWeakFrom curCount =>
    if s.mWeak = curCount then ({ s with mWeak := int32 (curCount+1) }, th.gainWeak)
    else (s, th.goto .incWeakAttempt)

def usesRefs : Point → Bool
  | .idle => false
  | _ => true

def usesObject (s : Shared) : Point → Bool
  | .incWeak .create | .incWeak (.strong _) | .onFirstRef | .onLastStrongRef | .destroy _
  | .onIncStrongAttempted | .dropUnneeded => true
  | .lastWeak => !decide (s.regular M)
  | _ => false

def touch (s : Shared) (p : Point) : Shared :=
  { s with fault := s.fault || (usesRefs p && !s.refs) || (usesObject M s p && !s.object) }

end Functions

variable {ι : Type} [DecidableEq ι]

structure State (ι : Type) where
  shared : Shared
  threads : ι → Thread

inductive Label (ι : Type) where
  | call (t : ι) (op : Op)
  | run (t : ι) (agrees : Bool)
  | giveStrong (t u : ι)
  | giveWeak (t u : ι)

def pass (lose gain : Thread → Thread) (threads : ι → Thread) (t u : ι) : ι → Thread :=
  let left := Function.update threads t (lose (threads t))
  Function.update left u (gain (left u))

def step (M : Modes) (s : State ι) : Label ι → Option (State ι)
  | .call t op =>
    match (s.threads t).point with
    | .idle => some { s with threads := Function.update s.threads t (op.start (s.threads t)) }
    | _ => none
  | .run t agrees =>
    match (s.threads t).point with
    | .idle => none
    | p =>
      let (shared, th) := advance M agrees (touch M s.shared p) (s.threads t)
      some ⟨shared, Function.update s.threads t th⟩
  | .giveStrong t u =>
    some { s with threads := pass Thread.loseStrong Thread.addStrong s.threads t u }
  | .giveWeak t u => some { s with threads := pass Thread.loseWeak Thread.addWeak s.threads t u }

def Alone (s : State ι) (t : ι) : Prop := ∀ u, u ≠ t → s.threads u = Thread.empty

/-- A thread may use the object: it holds a strong reference, or any if that is what
keeps the object, or no other thread knows of the object. -/
def MayUse (M : Modes) (s : State ι) (t : ι) : Prop :=
  0 < (s.threads t).strongs ∨
  (¬ s.shared.regular M ∧ 0 < (s.threads t).strongs+(s.threads t).weaks) ∨
  (Alone s t ∧ s.shared.object = true)

def Licensed (M : Modes) (s : State ι) (t : ι) : Op → Prop
  | .incStrong | .forceIncStrong | .createWeak => MayUse M s t
  | .decStrong => 0 < (s.threads t).strongs
  | .decWeak => 0 < (s.threads t).weaks
  | .incWeak | .attemptIncStrong | .attemptIncWeak =>
    0 < (s.threads t).strongs+(s.threads t).weaks
  | .delete => Alone s t ∧ s.shared.object = true ∧ (s.threads t).strongs = 0 ∧
    (s.threads t).weaks = 0

instance [Fintype ι] (s : State ι) (t : ι) : Decidable (Alone s t) :=
  inferInstanceAs (Decidable (∀ u, u ≠ t → s.threads u = Thread.empty))

instance [Fintype ι] (M : Modes) (s : State ι) (t : ι) : Decidable (MayUse M s t) :=
  inferInstanceAs (Decidable (_ ∨ _ ∨ _))

instance [Fintype ι] (M : Modes) (s : State ι) (t : ι) : ∀ op, Decidable (Licensed M s t op)
  | .incStrong | .forceIncStrong | .createWeak => inferInstanceAs (Decidable (MayUse M s t))
  | .decStrong | .decWeak | .incWeak | .attemptIncStrong | .attemptIncWeak =>
    inferInstanceAs (Decidable (_ < _))
  | .delete => inferInstanceAs (Decidable (_ ∧ _ ∧ _ ∧ _))

/-- The program makes a call, or passes a reference on, with a reference that it holds. -/
def Disciplined (M : Modes) (s : State ι) : Label ι → Prop
  | .call t op => Licensed M s t op
  | .run _ _ => True
  | .giveStrong t _ => (s.threads t).point = .idle ∧ 0 < (s.threads t).strongs
  | .giveWeak t _ => (s.threads t).point = .idle ∧ 0 < (s.threads t).weaks

instance [Fintype ι] (M : Modes) (s : State ι) : ∀ l, Decidable (Disciplined M s l)
  | .call _ _ => inferInstanceAs (Decidable (Licensed M s _ _))
  | .run _ _ => inferInstanceAs (Decidable True)
  | .giveStrong _ _ | .giveWeak _ _ => inferInstanceAs (Decidable (_ ∧ _))

def extendObjectLifetime (mode : BitVec 32) (s : Shared) : Shared :=
  { s with mFlags := s.mFlags ||| mode }

def constructed (mode : BitVec 32) : State ι where
  shared := extendObjectLifetime mode
    { mStrong := initialStrongValue, mWeak := 0, mFlags := 0, object := true, refs := true
      fault := false, firstRefs := 0, lastStrongRefs := 0, lastWeakRefs := 0 }
  threads _ := Thread.empty

end Wingray.RefBase
