import Wingray.SharedBuffer

/-!
# The storage of the vectors

A vector is a pointer to a shared buffer and a number of items. Copies of a vector
share its buffer until one of them is edited. A pointer into a buffer is the buffer
and a slot; what it points at is read when the code reads it.
-/

set_option autoImplicit false

namespace Wingray
open CountedStore SharedBuffer

/-- What an instance of the template brings: the flags and the virtual functions, each
on the slots it works on. A function that is misused gives nothing. -/
structure VectorType (α : Type) extends Platform where
  trivialCtor : Bool
  trivialDtor : Bool
  trivialCopy : Bool
  doConstruct : List (Option α) → ℕ → ℕ → Option (List (Option α))
  doDestroy : List (Option α) → ℕ → ℕ → Option (List (Option α))
  doCopy : List (Option α) → ℕ → List (Option α) → Option (List (Option α))
  doSplat : List (Option α) → ℕ → Option α → ℕ → Option (List (Option α))
  doMoveForward : List (Option α) → ℕ → ℕ → ℕ → Option (List (Option α))
  doMoveBackward : List (Option α) → ℕ → ℕ → ℕ → Option (List (Option α))

structure VectorImpl where
  storage : Option ℕ
  count : ℕ
  deriving DecidableEq, Repr

/-- A pointer argument: null, items outside every vector, or a slot of a buffer. -/
inductive Source (α : Type) where
  | null
  | outside (items : List (Option α))
  | stored (b i : ℕ)

def Source.isNull {α : Type} : Source α → Bool
  | .null => true
  | _ => false

def Source.isSlot {α : Type} (b i : ℕ) : Source α → Bool
  | .stored c j => b = c ∧ i = j
  | _ => false

namespace VectorImpl

def noError : ℤ := 0
def nameNotFound : ℤ := -2
def noMemory : ℤ := -12
def badValue : ℤ := -22
def badIndex : ℤ := -75

def kMinVectorCapacity : ℕ := 4

def ssize (n : ℕ) : ℤ := if n < 2^31 then n else (n : ℤ)-2^32

def add32 (a b : ℕ) : ℕ := (a+b)%2^32

def sub32 (a b : ℕ) : ℕ := (a+2^32-b)%2^32

variable {α : Type}

def slice (xs : List (Option α)) (i n : ℕ) : Option (List (Option α)) :=
  if i+n ≤ xs.length then some ((xs.drop i).take n) else none

def memcpy (dest : List (Option α)) (i : ℕ) (items : List (Option α)) :
    Option (List (Option α)) :=
  if i+items.length ≤ dest.length then
    some (dest.take i ++ items ++ dest.drop (i+items.length))
  else none

def orFault {β : Type} : Option β → Except Stop β
  | none => .error .fault
  | some x => .ok x

def readSource (h : Memory α) : Source α → ℕ → Except Stop (List (Option α))
  | .null, n => if n = 0 then .ok [] else .error .fault
  | .outside items, n => orFault (slice items 0 n)
  | .stored b i, n => do
    let c ← cellAt h b
    orFault (slice c.content.data i n)

def modify (h : Memory α) (b : ℕ) (f : List (Option α) → Option (List (Option α))) :
    Except Stop (Memory α) := do
  let c ← cellAt h b
  let data ← orFault (f c.content.data)
  return put h b { c with content := { c.content with data := data } }

section Functions
variable (T : VectorType α)

def doConstruct (xs : List (Option α)) (i n : ℕ) : Option (List (Option α)) :=
  if T.trivialCtor then some xs else T.doConstruct xs i n

def doDestroy (xs : List (Option α)) (i n : ℕ) : Option (List (Option α)) :=
  if T.trivialDtor then some xs else T.doDestroy xs i n

def doCopy (xs : List (Option α)) (i : ℕ) (items : List (Option α)) :
    Option (List (Option α)) :=
  if T.trivialCopy then memcpy xs i items else T.doCopy xs i items

def copyInto (h : Memory α) (b i : ℕ) (source : Source α) (n : ℕ) : Except Stop (Memory α) := do
  let items ← readSource h source n
  modify h b (fun xs => doCopy T xs i items)

def create : VectorImpl := ⟨none, 0⟩

def copyOf (h : Memory α) (rhs : VectorImpl) : Except Stop (VectorImpl × Memory α) := do
  match rhs.storage with
  | none => return (rhs, h)
  | some b =>
    let h ← acquire h b
    return (rhs, h)

def arrayImpl (v : VectorImpl) : Source α :=
  match v.storage with
  | none => .null
  | some b => .stored b 0

def itemAt (v : VectorImpl) (i : ℕ) : Source α :=
  match v.storage with
  | none => .null
  | some b => .stored b i

def capacity (h : Memory α) (v : VectorImpl) : Except Stop ℕ := do
  match v.storage with
  | none => return 0
  | some b =>
    let c ← cellAt h b
    return c.content.size/T.itemSize

def releaseStorage (h : Memory α) (v : VectorImpl) : Except Stop (Memory α) := do
  match v.storage with
  | none => return h
  | some b =>
    let (prev, h) ← release h b true
    if prev = 1 then
      let h ← modify h b (fun xs => doDestroy T xs 0 v.count)
      let (_, h) ← dealloc h b
      return h
    return h

def assign (h : Memory α) (v rhs : VectorImpl) : Except Stop (VectorImpl × Memory α) := do
  let h ← releaseStorage T h v
  if rhs.count = 0 then return (⟨none, 0⟩, h)
  match rhs.storage with
  | none => throw .fault
  | some b =>
    let h ← acquire h b
    return (⟨some b, rhs.count⟩, h)

def editArrayImpl (h : Memory α) (v : VectorImpl) : Except Stop (VectorImpl × Memory α) := do
  match v.storage with
  | none => return (v, h)
  | some b =>
    let editable ← attemptEdit h b
    if editable.isSome then return (v, h)
    -- another vector uses the buffer, so this one goes on in a copy
    let c ← cellAt h b
    let (sb, t) ← alloc T.toPlatform h c.content.size
    match sb with
    | none => throw (.exhausted h.next)
    | some n =>
      let h ← copyInto T t n 0 (.stored b 0) v.count
      let h ← releaseStorage T h v
      return ({ v with storage := some n }, h)

def itemLocation (h : Memory α) (v : VectorImpl) (index : ℕ) :
    Except Stop (Option (ℕ × ℕ)) := do
  let cap ← capacity T h v
  return if index < cap then v.storage.map (fun b => (b, index)) else none

def copyWhen (h : Memory α) (b i : ℕ) (source : Source α) (n : ℕ) : Except Stop (Memory α) :=
  if n ≠ 0 then copyInto T h b i source n else .ok h

/-- A buffer of `bytes` with the first `index` items and, from `target` on, `n` items
from slot `from'` on; the old buffer is let go. -/
def relocate (h : Memory α) (v : VectorImpl) (bytes index target from' n : ℕ) :
    Except Stop (Option ℕ × Memory α) := do
  let (sb, h) ← alloc T.toPlatform h bytes
  match sb with
  | none => return (none, h)
  | some b =>
    let h ← copyWhen T h b 0 (arrayImpl v) index
    let h ← copyWhen T h b target (itemAt v from') n
    let h ← releaseStorage T h v
    return (some b, h)

/-- The branch of `_grow` that needs more room. -/
def enlarge (h : Memory α) (v : VectorImpl) (index amount newSize : ℕ) :
    Except Stop (Option ℕ × Memory α) := do
  fatalIf (sizeMax < newSize+newSize/2)
  fatalIf (sizeMax < newSize+newSize/2+1)
  let newCapacity := max kMinVectorCapacity (newSize+newSize/2+1)
  fatalIf (sizeMax < newCapacity*T.itemSize)
  match v.storage with
  | some b =>
    if v.count = index ∧ T.trivialCopy ∧ T.trivialDtor then
      editResize T.toPlatform h b (newCapacity*T.itemSize)
    else relocate T h v (newCapacity*T.itemSize) index (index+amount) index (v.count-index)
  | none => relocate T h v (newCapacity*T.itemSize) index (index+amount) index (v.count-index)

def moveForward (h : Memory α) (v : VectorImpl) (index amount : ℕ) : Except Stop (Memory α) :=
  if index ≠ v.count then
    match v.storage with
    | none => .error .fault
    | some b => modify h b (fun xs => T.doMoveForward xs (index+amount) index (v.count-index))
  else .ok h

def grow (h : Memory α) (v : VectorImpl) (index amount : ℕ) :
    Except Stop (Option (ℕ × ℕ) × VectorImpl × Memory α) := do
  let newSize := v.count+amount
  fatalIf (sizeMax < newSize)
  let cap ← capacity T h v
  if cap < newSize then
    let (sb, h) ← enlarge T h v index amount newSize
    match sb with
    | none => return (none, v, h)
    | some b =>
      let w : VectorImpl := ⟨some b, newSize⟩
      let place ← itemLocation T h w index
      return (place, w, h)
  else
    let (w, h) ← editArrayImpl T h v
    let h ← moveForward T h w index amount
    let w : VectorImpl := { w with count := newSize }
    let place ← itemLocation T h w index
    return (place, w, h)

def moveBackward (h : Memory α) (b index amount newSize : ℕ) : Except Stop (Memory α) :=
  if index ≠ newSize then
    modify h b (fun xs => T.doMoveBackward xs index (add32 index amount) (sub32 newSize index))
  else .ok h

/-- The branch of `_shrink` that gives room back. -/
def reduce (h : Memory α) (v : VectorImpl) (b index amount newSize : ℕ) :
    Except Stop (Option ℕ × Memory α) :=
  let bytes := max kMinVectorCapacity (newSize*2)*T.itemSize%2^32
  if index = newSize ∧ T.trivialCopy ∧ T.trivialDtor then editResize T.toPlatform h b bytes
  else relocate T h v bytes index index (add32 index amount) (sub32 newSize index)

/-- The size stays as it was when the smaller buffer is refused. -/
def shrink (h : Memory α) (v : VectorImpl) (index amount : ℕ) :
    Except Stop (VectorImpl × Memory α) := do
  match v.storage with
  | none => return (v, h)
  | some b =>
    fatalIf (v.count < amount)
    let newSize := v.count-amount
    let cap ← capacity T h v
    if newSize < cap/2 then
      let (sb, h) ← reduce T h v b index amount newSize
      match sb with
      | none => return (v, h)
      | some n => return (⟨some n, newSize⟩, h)
    else
      let (w, h) ← editArrayImpl T h v
      match w.storage with
      | none => throw .fault
      | some n =>
        let h ← modify h n (fun xs => doDestroy T xs index amount)
        let h ← moveBackward T h n index amount newSize
        return (⟨some n, newSize⟩, h)

def insertArrayAt (h : Memory α) (v : VectorImpl) (array : Source α) (index length : ℕ) :
    Except Stop (ℤ × VectorImpl × Memory α) := do
  if v.count < index then return (badIndex, v, h)
  let (place, v, h) ← grow T h v index length
  match place with
  | none => return (noMemory, v, h)
  | some (b, i) =>
    let h ← copyInto T h b i array length
    return (ssize index, v, h)

def appendArray (h : Memory α) (v : VectorImpl) (array : Source α) (length : ℕ) :
    Except Stop (ℤ × VectorImpl × Memory α) :=
  insertArrayAt T h v array v.count length

def insertVectorAt (h : Memory α) (v vector : VectorImpl) (index : ℕ) :
    Except Stop (ℤ × VectorImpl × Memory α) :=
  insertArrayAt T h v (arrayImpl vector) index vector.count

def appendVector (h : Memory α) (v vector : VectorImpl) :
    Except Stop (ℤ × VectorImpl × Memory α) :=
  insertVectorAt T h v vector v.count

/-- A null item asks for new ones. -/
def fill (h : Memory α) (b i : ℕ) (item : Source α) (numItems : ℕ) : Except Stop (Memory α) :=
  if item.isNull then modify h b (fun xs => doConstruct T xs i numItems)
  else do
    let items ← readSource h item 1
    modify h b (fun xs => T.doSplat xs i (items.headD none) numItems)

def insertAt (h : Memory α) (v : VectorImpl) (item : Source α) (index numItems : ℕ) :
    Except Stop (ℤ × VectorImpl × Memory α) := do
  if v.count < index then return (badIndex, v, h)
  let (place, v, h) ← grow T h v index numItems
  match place with
  | none => return (noMemory, v, h)
  | some (b, i) =>
    let h ← fill T h b i item numItems
    return (ssize index, v, h)

def push (h : Memory α) (v : VectorImpl) (item : Source α) :
    Except Stop (VectorImpl × Memory α) := do
  let (_, v, h) ← insertAt T h v item v.count 1
  return (v, h)

def add (h : Memory α) (v : VectorImpl) (item : Source α) :
    Except Stop (ℤ × VectorImpl × Memory α) :=
  insertAt T h v item v.count 1

def editItemLocation (h : Memory α) (v : VectorImpl) (index : ℕ) :
    Except Stop (Option (ℕ × ℕ) × VectorImpl × Memory α) := do
  let cap ← capacity T h v
  if index < cap then
    let (v, h) ← editArrayImpl T h v
    return (v.storage.map (fun b => (b, index)), v, h)
  return (none, v, h)

/-- The item at a slot gives way to a new one or to a copy of the prototype. -/
def refill (h : Memory α) (b i : ℕ) (prototype : Source α) : Except Stop (Memory α) := do
  let h ← modify h b (fun xs => doDestroy T xs i 1)
  if prototype.isNull then modify h b (fun xs => doConstruct T xs i 1)
  else copyInto T h b i prototype 1

/-- A prototype that is the very slot to replace leaves it alone. -/
def replaceAt (h : Memory α) (v : VectorImpl) (prototype : Source α) (index : ℕ) :
    Except Stop (ℤ × VectorImpl × Memory α) := do
  if v.count ≤ index then return (badIndex, v, h)
  let (item, v, h) ← editItemLocation T h v index
  match item with
  | none => return (if prototype.isNull then ssize index else noMemory, v, h)
  | some (b, i) =>
    if prototype.isSlot b i then return (ssize index, v, h)
    let h ← refill T h b i prototype
    return (ssize index, v, h)

def removeItemsAt (h : Memory α) (v : VectorImpl) (index count : ℕ) :
    Except Stop (ℤ × VectorImpl × Memory α) := do
  if v.count < add32 index count then return (badValue, v, h)
  let (v, h) ← shrink T h v index count
  return (ssize index, v, h)

def pop (h : Memory α) (v : VectorImpl) : Except Stop (VectorImpl × Memory α) := do
  if v.count = 0 then return (v, h)
  let (_, v, h) ← removeItemsAt T h v (v.count-1) 1
  return (v, h)

def finishVector (h : Memory α) (v : VectorImpl) : Except Stop (VectorImpl × Memory α) := do
  let h ← releaseStorage T h v
  return (⟨none, 0⟩, h)

def clear (h : Memory α) (v : VectorImpl) : Except Stop (VectorImpl × Memory α) :=
  shrink T h v 0 v.count

def setCapacity (h : Memory α) (v : VectorImpl) (newCapacity : ℕ) :
    Except Stop (ℤ × VectorImpl × Memory α) := do
  if newCapacity ≤ v.count then
    let cap ← capacity T h v
    return (ssize cap, v, h)
  fatalIf (sizeMax < newCapacity*T.itemSize)
  let (sb, h) ← alloc T.toPlatform h (newCapacity*T.itemSize)
  match sb with
  | none => return (noMemory, v, h)
  | some b =>
    let h ← copyInto T h b 0 (arrayImpl v) v.count
    let h ← releaseStorage T h v
    return (ssize newCapacity, { v with storage := some b }, h)

def resizeStep (h : Memory α) (v : VectorImpl) (size : ℕ) :
    Except Stop (ℤ × VectorImpl × Memory α) :=
  if v.count < size then insertAt T h v .null v.count (size-v.count)
  else if size < v.count then removeItemsAt T h v size (v.count-size)
  else .ok (noError, v, h)

def resize (h : Memory α) (v : VectorImpl) (size : ℕ) :
    Except Stop (ℤ × VectorImpl × Memory α) := do
  let (result, v, h) ← resizeStep T h v size
  return (if result < 0 then result else ssize size, v, h)

end Functions

end VectorImpl

end Wingray
