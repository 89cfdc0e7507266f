import Wingray.GuardedRun
import Wingray.VectorSort

/-!
# Vectors that share their buffers

Any number of vectors, and the calls that the program makes on them. To the program
every vector is a list of its own: a call changes the vector it is made on and no
other, although copies share a buffer until one of them is edited.
-/

set_option autoImplicit false

namespace Wingray.VectorHeap
open CountedStore SharedBuffer OutcomeLogic VectorImpl GuardedRun StableInsertion

variable {α : Type}

structure Vectors (α : Type) where
  memory : Memory α
  vectors : List VectorImpl

/-- A pointer argument of a call: null, items of the caller, or a slot of a vector. -/
inductive Argument (α : Type) where
  | null
  | outside (items : List (Option α))
  | slot (j k : ℕ)

inductive Call (α : Type) where
  | create
  | copyOf (j : ℕ)
  | assign (i j : ℕ)
  | finishVector (i : ℕ)
  | clear (i : ℕ)
  | editArrayImpl (i : ℕ)
  | insertArrayAt (i : ℕ) (array : Argument α) (index length : ℕ)
  | insertVectorAt (i j index : ℕ)
  | insertAt (i : ℕ) (item : Argument α) (index numItems : ℕ)
  | replaceAt (i : ℕ) (prototype : Argument α) (index : ℕ)
  | removeItemsAt (i index count : ℕ)
  | pop (i : ℕ)
  | setCapacity (i newCapacity : ℕ)
  | resize (i size : ℕ)
  | sort (i : ℕ) (cmp : Option α → Option α → ℤ)

def source (vs : List VectorImpl) : Argument α → Source α
  | .null => .null
  | .outside items => .outside items
  | .slot j k =>
    match vs[j]? with
    | none => .null
    | some v => itemAt v k

section Functions
variable (T : VectorType α)

def onVector (s : Vectors α) (i : ℕ)
    (f : Memory α → VectorImpl → Except Stop (ℤ × VectorImpl × Memory α)) :
    Except Stop (ℤ × Vectors α) := do
  match s.vectors[i]? with
  | none => throw .fault
  | some v =>
    let (ret, w, h) ← f s.memory v
    return (ret, ⟨h, s.vectors.set i w⟩)

def quiet (f : Memory α → VectorImpl → Except Stop (VectorImpl × Memory α)) (h : Memory α)
    (v : VectorImpl) : Except Stop (ℤ × VectorImpl × Memory α) := do
  let (w, h) ← f h v
  return (0, w, h)

def step (s : Vectors α) : Call α → Except Stop (ℤ × Vectors α)
  | .create => .ok (0, ⟨s.memory, s.vectors ++ [create]⟩)
  | .copyOf j => do
    match s.vectors[j]? with
    | none => throw .fault
    | some rhs =>
      let (w, h) ← copyOf s.memory rhs
      return (0, ⟨h, s.vectors ++ [w]⟩)
  | .assign i j => do
    match s.vectors[j]? with
    | none => throw .fault
    | some rhs =>
      if i = j then return (0, s)
      onVector s i (quiet (fun h v => assign T h v rhs))
  | .finishVector i => onVector s i (quiet (finishVector T))
  | .clear i => onVector s i (quiet (clear T))
  | .editArrayImpl i => onVector s i (quiet (editArrayImpl T))
  | .insertArrayAt i array index length =>
    onVector s i (fun h v => insertArrayAt T h v (source s.vectors array) index length)
  | .insertVectorAt i j index => do
    match s.vectors[j]? with
    | none => throw .fault
    | some vector => onVector s i (fun h v => insertVectorAt T h v vector index)
  | .insertAt i item index numItems =>
    onVector s i (fun h v => insertAt T h v (source s.vectors item) index numItems)
  | .replaceAt i prototype index =>
    onVector s i (fun h v => replaceAt T h v (source s.vectors prototype) index)
  | .removeItemsAt i index count => onVector s i (fun h v => removeItemsAt T h v index count)
  | .pop i => onVector s i (quiet (pop T))
  | .setCapacity i newCapacity => onVector s i (fun h v => setCapacity T h v newCapacity)
  | .resize i size => onVector s i (fun h v => resize T h v size)
  | .sort i cmp => onVector s i (sort T cmp)

def next (s : Vectors α) (l : Call α × ℤ) : Option (Vectors α) :=
  match step T s l.1 with
  | .ok (ret, s') => if ret = l.2 then some s' else none
  | .error _ => none

/-- The argument of a call on vector `i` points at `n` items, none of them its own. -/
def Argued (vs : List VectorImpl) (i n : ℕ) : Argument α → Prop
  | .null => n = 0
  | .outside items => n ≤ items.length ∧ ∀ c ∈ items, Live T c
  | .slot j k => j ≠ i ∧ ∃ v, vs[j]? = some v ∧ k+n ≤ v.count

/-- What the code takes for granted in a call. -/
def Allowed (vs : List VectorImpl) : Call α → Prop
  | .create => True
  | .copyOf j => j < vs.length
  | .assign i j => i < vs.length ∧ j < vs.length
  | .finishVector i | .clear i | .editArrayImpl i | .pop i => i < vs.length
  | .insertArrayAt i array _ length => i < vs.length ∧ Argued T vs i length array
  | .insertVectorAt i j _ => i < vs.length ∧ j < vs.length ∧ j ≠ i
  | .insertAt i item _ _ => i < vs.length ∧ (item = .null ∨ Argued T vs i 1 item)
  | .replaceAt i prototype _ => i < vs.length ∧ (prototype = .null ∨ Argued T vs i 1 prototype)
  | .removeItemsAt i index count => i < vs.length ∧ index+count < 2^32
  | .setCapacity i _ | .resize i _ | .sort i _ => i < vs.length

end Functions

def Denotes (xss : List (List (Option α))) (n : ℕ) (items : List (Option α)) :
    Argument α → Prop
  | .null => items = []
  | .outside ys => items = ys.take n
  | .slot j k => ∃ ys, xss[j]? = some ys ∧ items = (ys.drop k).take n

def Changes (xss : List (List (Option α))) (i : ℕ)
    (Q : List (Option α) → List (Option α) → Prop) (yss : List (List (Option α))) : Prop :=
  ∃ xs ys, xss[i]? = some xs ∧ Q xs ys ∧ yss = xss.set i ys

def Given (T : VectorType α) (initial : α) (xss : List (List (Option α))) (item : Argument α)
    (n : ℕ) (items : List (Option α)) : Prop :=
  match item with
  | .null => Fresh T initial n items
  | item => ∃ value, Denotes xss 1 [value] item ∧ items = List.replicate n value

/-- What a call does to the lists, and what it may answer, some request of its own
`refused` or none. -/
def Effect (T : VectorType α) (initial : α) (xss : List (List (Option α))) (refused : Prop)
    (ret : ℤ) (yss : List (List (Option α))) : Call α → Prop
  | .create => ret = 0 ∧ yss = xss ++ [[]]
  | .copyOf j => ret = 0 ∧ ∃ xs, xss[j]? = some xs ∧ yss = xss ++ [xs]
  | .assign i j => ret = 0 ∧ ∃ ys, xss[j]? = some ys ∧ yss = xss.set i ys
  | .finishVector i => ret = 0 ∧ yss = xss.set i []
  | .clear i => ret = 0 ∧
      Changes xss i (fun xs ys => ys = [] ∨ refused ∧ ys = xs) yss
  | .editArrayImpl _ => ret = 0 ∧ yss = xss
  | .insertArrayAt i array index length => ∃ items, Denotes xss length items array ∧
      items.length = length ∧
      Changes xss i
        (fun xs ys => Insertion xs index length (fun zs => zs = items) refused ret ys) yss
  | .insertVectorAt i j index => ∃ items, xss[j]? = some items ∧
      Changes xss i
        (fun xs ys => Insertion xs index items.length (fun zs => zs = items) refused ret ys) yss
  | .insertAt i item index n =>
      Changes xss i
        (fun xs ys => Insertion xs index n (Given T initial xss item n) refused ret ys) yss
  | .replaceAt i item index =>
      Changes xss i (fun xs ys => Replacement xs index (Given T initial xss item 1) ret ys) yss
  | .removeItemsAt i index count =>
      Changes xss i (fun xs ys => Removal xs index count refused ret ys) yss
  | .pop i => ret = 0 ∧
      Changes xss i (fun xs ys => ys = xs.dropLast ∨ refused ∧ ys = xs) yss
  | .setCapacity i n => Changes xss i (fun xs ys => Reservation xs n refused ret ys) yss
  | .resize i n => Changes xss i (fun xs ys => Resizing T initial xs n refused ret ys) yss
  | .sort i cmp => Changes xss i (fun xs ys => Sorting cmp xs refused ret ys) yss

def Oversized (T : VectorType α) (xss : List (List (Option α))) : Call α → Prop
  | .insertArrayAt i _ _ n | .insertAt i _ _ n => ∃ xs, xss[i]? = some xs ∧ TooMany T (xs.length+n)
  | .insertVectorAt i j _ => ∃ xs ys, xss[i]? = some xs ∧ xss[j]? = some ys ∧
      TooMany T (xs.length+ys.length)
  | .setCapacity _ n => ¬ Fits T n
  | .resize _ n => TooMany T n
  | _ => False

def holders (vs : List VectorImpl) : List ℕ := vs.flatMap (fun v => v.storage.toList)

structure Models (T : VectorType α) (s : Vectors α) (xss : List (List (Option α))) : Prop where
  counted : Counted (holders s.vectors) s.memory
  length : s.vectors.length = xss.length
  represents : ∀ (i : ℕ) (v : VectorImpl) (xs : List (Option α)), s.vectors[i]? = some v →
    xss[i]? = some xs → Represents T s.memory v xs

variable {T : VectorType α} {initial : α} {s : Vectors α} {xss : List (List (Option α))}
  {vs : List VectorImpl} {v w : VectorImpl} {xs ys : List (Option α)} {i j : ℕ} {h : Memory α}

theorem holders_cons (v : VectorImpl) (vs : List VectorImpl) :
    holders (v::vs) = v.storage.toList ++ holders vs :=
  List.flatMap_cons

theorem holders_perm {us : List VectorImpl} (hp : vs.Perm us) : (holders vs).Perm (holders us) :=
  hp.flatMap_right _

theorem holders_count (vs : List VectorImpl) (b : ℕ) :
    (holders vs).count b = vs.countP (fun v => v.storage = some b) := by
  induction vs with
  | nil => rfl
  | cons v vs ih =>
    rw [holders_cons, List.count_append, ih, List.countP_cons, add_comm]
    congr 1
    cases v.storage with
    | none => simp
    | some a => simp [List.count_singleton]

theorem mem_holders {b : ℕ} (hv : v ∈ vs) (hb : v.storage = some b) : b ∈ holders vs :=
  List.mem_flatMap.mpr ⟨v, hv, by rw [hb]; exact List.mem_singleton_self b⟩

theorem focus_perm (hv : vs[i]? = some v) :
    (holders vs).Perm (v.storage.toList ++ holders (vs.eraseIdx i)) := by
  obtain ⟨hi, rfl⟩ := List.getElem?_eq_some_iff.mp hv
  rw [← holders_cons]
  exact holders_perm (List.getElem_cons_eraseIdx_perm hi).symm

theorem mem_eraseIdx (hw : vs[j]? = some w) (hne : j ≠ i) : w ∈ vs.eraseIdx i := by
  rw [List.mem_eraseIdx_iff_getElem?]
  exact ⟨j, hne, hw⟩

/-- One vector seen by itself, with the buffers of all the others. -/
theorem Models.focus (hm : Models T s xss) (hv : s.vectors[i]? = some v)
    (hx : xss[i]? = some xs) : Owned T (holders (s.vectors.eraseIdx i)) s.memory v xs :=
  ⟨hm.counted.perm (focus_perm hv), hm.represents i v xs hv hx⟩

/-- An operation on one vector that keeps the others' buffers keeps the others' items. -/
theorem Models.refocus (hm : Models T s xss) (hi : i < s.vectors.length)
    (ho : Owned T (holders (s.vectors.eraseIdx i)) h w ys)
    (hp : Preserved (holders (s.vectors.eraseIdx i)) s.memory h) :
    Models T ⟨h, s.vectors.set i w⟩ (xss.set i ys) where
  counted := by
    refine ho.counted.perm ?_
    rw [← holders_cons]
    exact holders_perm (List.set_perm_cons_eraseIdx hi w).symm
  length := by
    simp only [List.length_set]
    exact hm.length
  represents := by
    intro j u zs hu hz
    by_cases hij : i = j
    · subst hij
      rw [List.getElem?_set_self hi] at hu
      rw [List.getElem?_set_self (hm.length ▸ hi)] at hz
      cases hu
      cases hz
      exact ho.represents
    · rw [List.getElem?_set_ne hij] at hu hz
      refine (hm.represents j u zs hu hz).preserved (hp.mono ?_)
      intro b hb
      exact mem_holders (mem_eraseIdx hu (Ne.symm hij)) (Option.mem_toList.mp hb)

theorem Models.append (hm : Models T s xss) (ho : Owned T (holders s.vectors) h w ys)
    (hp : Preserved (holders s.vectors) s.memory h) :
    Models T ⟨h, s.vectors ++ [w]⟩ (xss ++ [ys]) where
  counted := by
    refine ho.counted.perm ?_
    rw [← holders_cons]
    exact holders_perm (List.perm_append_singleton w s.vectors).symm
  length := by
    simp only [List.length_append, List.length_singleton, hm.length]
  represents := by
    intro j u zs hu hz
    rcases Nat.lt_or_ge j s.vectors.length with hj | hj
    · rw [List.getElem?_append_left hj] at hu
      rw [List.getElem?_append_left (hm.length ▸ hj)] at hz
      refine (hm.represents j u zs hu hz).preserved (hp.mono ?_)
      intro b hb
      exact mem_holders (List.mem_of_getElem? hu) (Option.mem_toList.mp hb)
    · rw [List.getElem?_append_right hj] at hu
      rw [List.getElem?_append_right (hm.length ▸ hj), ← hm.length] at hz
      rw [List.getElem?_singleton] at hu hz
      split_ifs at hu hz with hzero
      cases hu
      cases hz
      exact ho.represents

theorem Models.lookup (hm : Models T s xss) (hi : i < s.vectors.length) :
    ∃ v xs, s.vectors[i]? = some v ∧ xss[i]? = some xs ∧ v.count = xs.length := by
  have hx : i < xss.length := hm.length ▸ hi
  refine ⟨_, _, List.getElem?_eq_getElem hi, List.getElem?_eq_getElem hx, ?_⟩
  exact (hm.represents i _ _ (List.getElem?_eq_getElem hi) (List.getElem?_eq_getElem hx)).1

theorem onVector_spec {limit : Prop} {Q : List (Option α) → Prop → ℤ → List (Option α) → Prop}
    {f : Memory α → VectorImpl → Except Stop (ℤ × VectorImpl × Memory α)} (hm : Models T s xss)
    (hi : i < s.vectors.length)
    (hf : ∀ v xs, xss[i]? = some xs → Owned T (holders (s.vectors.eraseIdx i)) s.memory v xs →
      Meets (Excuse T.toPlatform s.memory limit)
        (Became T (holders (s.vectors.eraseIdx i)) s.memory (Q xs)) (f s.memory v)) :
    Meets (Excuse T.toPlatform s.memory limit)
      (fun r => ∃ yss, Changes xss i (fun xs ys =>
        Q xs (Refused T.refuse s.memory r.2.memory) r.1 ys) yss ∧ Models T r.2 yss)
      (onVector s i f) := by
  obtain ⟨v, xs, hv, hx, -⟩ := hm.lookup hi
  simp only [onVector, hv]
  refine (hf v xs hx (hm.focus hv hx)).bind ?_
  rintro ⟨ret, w, t⟩ ⟨hp, ys, hys, ho⟩
  exact ⟨_, ⟨xs, ys, hx, hys, rfl⟩, hm.refocus hi ho hp⟩

theorem quiet_spec {held : List ℕ} {E : Stop → Prop} {P : Prop → List (Option α) → Prop}
    {f : Memory α → VectorImpl → Except Stop (VectorImpl × Memory α)}
    (hf : Meets E (fun r => Preserved held h r.2 ∧ ∃ ys, P (Refused T.refuse h r.2) ys ∧
      Owned T held r.2 r.1 ys) (f h v)) :
    Meets E (Became T held h (fun refused ret ys => ret = 0 ∧ P refused ys)) (quiet f h v) := by
  refine hf.bind ?_
  rintro ⟨w, t⟩ ⟨hp, ys, hys, ho⟩
  exact ⟨hp, ys, ⟨rfl, hys⟩, ho⟩

/-- An argument that is not the vector's own stays readable while the vector changes. -/
theorem Argued.readable {n : ℕ} {arg : Argument α} (hm : Models T s xss)
    (ha : Argued T s.vectors i n arg) :
    ∃ items, items.length = n ∧ Denotes xss n items arg ∧
      Readable T (holders (s.vectors.eraseIdx i)) s.memory (source s.vectors arg) items ∧
      ((source s.vectors arg).isNull = true → n = 0) := by
  cases arg with
  | null =>
    obtain rfl : n = 0 := ha
    exact ⟨[], rfl, rfl, ⟨by simp, rfl⟩, fun _ => rfl⟩
  | outside ys =>
    obtain ⟨hn, hlive⟩ := ha
    have hlen : (ys.take n).length = n := List.length_take_of_le hn
    refine ⟨ys.take n, hlen, rfl, ⟨fun c hc => hlive c (List.mem_of_mem_take hc), ?_⟩,
      fun hnull => by cases hnull⟩
    change slice ys 0 (ys.take n).length = some (ys.take n)
    rw [hlen, slice_eq ys (by omega), List.drop_zero]
  | slot j k =>
    obtain ⟨hne, v, hv, hk⟩ := ha
    obtain ⟨hj, -⟩ := List.getElem?_eq_some_iff.mp hv
    obtain ⟨u, ys, hu, hy, hcount⟩ := hm.lookup hj
    obtain rfl : v = u := Option.some.inj (hv.symm.trans hu)
    have hlen : ((ys.drop k).take n).length = n := by
      rw [List.length_take, List.length_drop]
      omega
    have hrep := hm.represents j v ys hv hy
    refine ⟨_, hlen, ⟨ys, hy, rfl⟩, ⟨?_, ?_⟩, ?_⟩
    · exact fun c hc => hrep.2.1 c (List.mem_of_mem_drop (List.mem_of_mem_take hc))
    · have hs := hrep.2.2
      simp only [source, hv, itemAt]
      cases hst : v.storage with
      | none =>
        rw [hst] at hs
        obtain rfl : ys = [] := hs
        simp
      | some b =>
        rw [hst] at hs
        obtain ⟨spare, hstores, -, -⟩ := hs
        refine ⟨mem_holders (mem_eraseIdx hv hne) hst, _, hstores, ?_⟩
        rw [hlen, slice_eq _ (by rw [List.length_append]; omega)]
        rw [List.drop_append_of_le_length (by omega), List.take_append_of_le_length]
        rw [List.length_drop]
        omega
    · intro hnull
      have hs := hrep.2.2
      simp only [source, hv, itemAt] at hnull
      cases hst : v.storage with
      | none =>
        rw [hst] at hs
        obtain rfl : ys = [] := hs
        rw [hcount, List.length_nil] at hk
        omega
      | some b =>
        rw [hst] at hnull
        cases hnull

theorem item_given (initial : α) (hm : Models T s xss) {item : Argument α}
    (ha : item = .null ∨ Argued T s.vectors i 1 item) :
    ∃ value, Item T (holders (s.vectors.eraseIdx i)) s.memory (source s.vectors item) value ∧
      ∀ n items, Filling T initial (source s.vectors item) value n items →
        Given T initial xss item n items := by
  rcases ha with rfl | ha
  · refine ⟨none, fun hnull => (nomatch hnull), fun n items hf => ?_⟩
    rwa [Filling, if_pos (by rfl)] at hf
  obtain ⟨items, hlen, hden, hread, hnull⟩ := ha.readable hm
  obtain ⟨value, rfl⟩ := List.length_eq_one_iff.mp hlen
  refine ⟨value, fun _ => hread, fun n ys hf => ?_⟩
  rw [Filling, if_neg (fun hn => absurd (hnull hn) one_ne_zero)] at hf
  cases item with
  | null => exact absurd ha one_ne_zero
  | outside zs => exact ⟨value, hden, hf⟩
  | slot j k => exact ⟨value, hden, hf⟩

def Answers (T : VectorType α) (initial : α) (s : Vectors α) (xss : List (List (Option α)))
    (call : Call α) (r : ℤ × Vectors α) : Prop :=
  ∃ yss, Effect T initial xss (Refused T.refuse s.memory r.2.memory) r.1 yss call ∧
    Models T r.2 yss

theorem edit_answers {limit : Prop} {Q : List (Option α) → Prop → ℤ → List (Option α) → Prop}
    {f : Memory α → VectorImpl → Except Stop (ℤ × VectorImpl × Memory α)} {call : Call α}
    (hm : Models T s xss) (hi : i < s.vectors.length)
    (hf : ∀ v xs, xss[i]? = some xs → Owned T (holders (s.vectors.eraseIdx i)) s.memory v xs →
      Meets (Excuse T.toPlatform s.memory limit)
        (Became T (holders (s.vectors.eraseIdx i)) s.memory (Q xs)) (f s.memory v))
    (hq : ∀ refused ret yss, Changes xss i (fun xs ys => Q xs refused ret ys) yss →
      Effect T initial xss refused ret yss call) :
    Meets (Excuse T.toPlatform s.memory limit) (Answers T initial s xss call) (onVector s i f) := by
  refine (onVector_spec hm hi hf).weaken ?_
  rintro r ⟨yss, hc, hmy⟩
  exact ⟨yss, hq _ r.1 yss hc, hmy⟩

theorem quiet_answers {P : Prop → List (Option α) → List (Option α) → Prop}
    {f : Memory α → VectorImpl → Except Stop (VectorImpl × Memory α)} {call : Call α}
    (hm : Models T s xss) (hi : i < s.vectors.length)
    (hf : ∀ v xs, xss[i]? = some xs → Owned T (holders (s.vectors.eraseIdx i)) s.memory v xs →
      Meets (Excuse T.toPlatform s.memory False)
        (fun r => Preserved (holders (s.vectors.eraseIdx i)) s.memory r.2 ∧
          ∃ ys, P (Refused T.refuse s.memory r.2) xs ys ∧
            Owned T (holders (s.vectors.eraseIdx i)) r.2 r.1 ys) (f s.memory v))
    (hq : ∀ refused yss, Changes xss i (P refused) yss →
      Effect T initial xss refused 0 yss call) :
    Meets (Excuse T.toPlatform s.memory False) (Answers T initial s xss call)
      (onVector s i (quiet f)) := by
  refine edit_answers (Q := fun xs refused ret ys => ret = 0 ∧ P refused xs ys) hm hi
    (fun v xs hx ho => quiet_spec (P := fun refused ys => P refused xs ys) (hf v xs hx ho)) ?_
  rintro refused ret yss ⟨xs, ys, hx, ⟨rfl, hp⟩, hy⟩
  exact hq refused yss ⟨xs, ys, hx, hp, hy⟩

theorem set_self (hx : xss[i]? = some xs) : xss.set i xs = xss := by
  obtain ⟨hi, rfl⟩ := List.getElem?_eq_some_iff.mp hx
  exact List.set_getElem_self hi

theorem copyOf_answers (hm : Models T s xss) {j : ℕ} (hj : j < s.vectors.length) :
    Meets (Excuse T.toPlatform s.memory False) (Answers T initial s xss (.copyOf j))
      (step T s (.copyOf j)) := by
  obtain ⟨v, xs, hv, hx, -⟩ := hm.lookup hj
  simp only [step, hv]
  refine (copyOf_spec hm.counted (hm.represents j v xs hv hx)
    (fun b hb => mem_holders (List.mem_of_getElem? hv) hb)).bind ?_
  rintro ⟨w, t⟩ ⟨hp, -, ho⟩
  exact ⟨_, ⟨rfl, xs, hx, rfl⟩, hm.append ho hp⟩

theorem assign_answers (hl : Lawful T initial) (hm : Models T s xss) (hi : i < s.vectors.length)
    (hj : j < s.vectors.length) :
    Meets (Excuse T.toPlatform s.memory False) (Answers T initial s xss (.assign i j))
      (step T s (.assign i j)) := by
  obtain ⟨rhs, ys, hv, hy, -⟩ := hm.lookup hj
  simp only [step, hv]
  refine Meets.ite (fun hij => ?_) (fun hij => ?_)
  · refine ⟨xss, ⟨rfl, ys, hy, ?_⟩, hm⟩
    rw [hij, set_self hy]
  · refine quiet_answers (P := fun _ _ zs => zs = ys) hm hi (fun v xs hx ho => ?_) ?_
    · refine (assign_spec hl ho (hm.represents j rhs ys hv hy) (fun b hb =>
        mem_holders (mem_eraseIdx hv (Ne.symm hij)) hb)).weaken ?_
      rintro r ⟨hp, ho'⟩
      exact ⟨hp, ys, rfl, ho'⟩
    · rintro refused yss ⟨xs, zs, hx, rfl, hyss⟩
      exact ⟨rfl, zs, hy, hyss⟩

theorem finishVector_answers (hl : Lawful T initial) (hm : Models T s xss)
    (hi : i < s.vectors.length) :
    Meets (Excuse T.toPlatform s.memory False) (Answers T initial s xss (.finishVector i))
      (step T s (.finishVector i)) := by
  refine quiet_answers (P := fun _ _ ys => ys = []) hm hi (fun v xs hx ho => ?_) ?_
  · refine (finishVector_spec hl ho).weaken ?_
    rintro r ⟨hp, -, ho'⟩
    exact ⟨hp, [], rfl, ho'⟩
  · rintro refused yss ⟨xs, zs, hx, rfl, hyss⟩
    exact ⟨rfl, hyss⟩

theorem clear_answers (hl : Lawful T initial) (hm : Models T s xss) (hi : i < s.vectors.length) :
    Meets (Excuse T.toPlatform s.memory False) (Answers T initial s xss (.clear i))
      (step T s (.clear i)) := by
  refine quiet_answers (P := fun refused xs ys => ys = [] ∨ refused ∧ ys = xs) hm hi
    (fun v xs hx ho => ?_) (fun refused yss hc => ⟨rfl, hc⟩)
  refine (clear_spec hl ho).weaken ?_
  rintro r ⟨hp, ho' | ⟨href, ho'⟩⟩
  · exact ⟨hp, [], .inl rfl, ho'⟩
  · exact ⟨hp, xs, .inr ⟨href, rfl⟩, ho'⟩

theorem editArrayImpl_answers (hl : Lawful T initial) (hm : Models T s xss)
    (hi : i < s.vectors.length) :
    Meets (Excuse T.toPlatform s.memory False) (Answers T initial s xss (.editArrayImpl i))
      (step T s (.editArrayImpl i)) := by
  refine quiet_answers (P := fun _ xs ys => ys = xs) hm hi (fun v xs hx ho => ?_) ?_
  · refine (editArrayImpl_spec hl ho).weaken ?_
    rintro r ⟨ho', hp, -⟩
    exact ⟨hp, xs, rfl, ho'⟩
  · rintro refused yss ⟨xs, zs, hx, rfl, hyss⟩
    exact ⟨rfl, by rw [hyss, set_self hx]⟩

theorem insertArrayAt_answers (hl : Lawful T initial) (hm : Models T s xss)
    (hi : i < s.vectors.length) {array : Argument α} {index length : ℕ}
    (harg : Argued T s.vectors i length array) :
    Meets (Excuse T.toPlatform s.memory (Oversized T xss (.insertArrayAt i array index length)))
      (Answers T initial s xss (.insertArrayAt i array index length))
      (step T s (.insertArrayAt i array index length)) := by
  obtain ⟨items, hlen, hden, hread, -⟩ := harg.readable hm
  subst hlen
  rw [step]
  refine edit_answers (Q := fun xs => Insertion xs index items.length (fun zs => zs = items))
    hm hi ?_ (fun refused ret yss hc => ⟨items, hden, rfl, hc⟩)
  intro v xs hx ho
  exact (insertArrayAt_spec hl ho hread index).mono (Excuse.mono _ (fun ht => ⟨xs, hx, ht⟩))
    (fun _ hb => hb)

theorem insertVectorAt_answers (hl : Lawful T initial) (hm : Models T s xss)
    (hi : i < s.vectors.length) (hj : j < s.vectors.length) (hne : j ≠ i) {index : ℕ} :
    Meets (Excuse T.toPlatform s.memory (Oversized T xss (.insertVectorAt i j index)))
      (Answers T initial s xss (.insertVectorAt i j index))
      (step T s (.insertVectorAt i j index)) := by
  obtain ⟨w, items, hw, hy, hcount⟩ := hm.lookup hj
  have harg : Argued T s.vectors i w.count (.slot j 0) := ⟨hne, w, hw, by omega⟩
  obtain ⟨ys, hlen, ⟨zs, hz, hys⟩, hread, -⟩ := harg.readable hm
  obtain rfl : items = zs := Option.some.inj (hy.symm.trans hz)
  rw [List.drop_zero, hcount, List.take_length] at hys
  subst hys
  have hsrc : source s.vectors (.slot j 0 : Argument α) = arrayImpl w := by
    simp only [source, hw]
    rfl
  rw [hsrc] at hread
  simp only [step, hw]
  refine edit_answers (Q := fun xs => Insertion xs index ys.length (fun zs => zs = ys))
    hm hi ?_ (fun refused ret yss hc => ⟨ys, hy, hc⟩)
  intro v xs hx ho
  rw [insertVectorAt, hcount]
  exact (insertArrayAt_spec hl ho hread index).mono
    (Excuse.mono _ (fun ht => ⟨xs, ys, hx, hy, ht⟩)) (fun _ hb => hb)

theorem insertAt_answers (hl : Lawful T initial) (hm : Models T s xss) (hi : i < s.vectors.length)
    {item : Argument α} {index n : ℕ} (harg : item = .null ∨ Argued T s.vectors i 1 item) :
    Meets (Excuse T.toPlatform s.memory (Oversized T xss (.insertAt i item index n)))
      (Answers T initial s xss (.insertAt i item index n))
      (step T s (.insertAt i item index n)) := by
  obtain ⟨value, hitem, hgiven⟩ := item_given initial hm harg
  rw [step]
  refine edit_answers (Q := fun xs => Insertion xs index n (Given T initial xss item n))
    hm hi ?_ (fun refused ret yss hc => hc)
  intro v xs hx ho
  refine (insertAt_spec hl ho hitem index n).mono (Excuse.mono _ (fun ht => ⟨xs, hx, ht⟩)) ?_
  rintro r ⟨hp, ys, hlow | ⟨hix, hret, items, hfill, hys⟩ | hno, ho'⟩
  · exact ⟨hp, ys, .inl hlow, ho'⟩
  · exact ⟨hp, ys, .inr (.inl ⟨hix, hret, items, hgiven n items hfill, hys⟩), ho'⟩
  · exact ⟨hp, ys, .inr (.inr hno), ho'⟩

theorem replaceAt_answers (hl : Lawful T initial) (hm : Models T s xss) (hi : i < s.vectors.length)
    {item : Argument α} {index : ℕ} (harg : item = .null ∨ Argued T s.vectors i 1 item) :
    Meets (Excuse T.toPlatform s.memory False) (Answers T initial s xss (.replaceAt i item index))
      (step T s (.replaceAt i item index)) := by
  obtain ⟨value, hitem, hgiven⟩ := item_given initial hm harg
  rw [step]
  refine edit_answers (Q := fun xs _ => Replacement xs index (Given T initial xss item 1))
    hm hi ?_ (fun refused ret yss hc => hc)
  intro v xs hx ho
  refine (replaceAt_spec hl ho hitem index).weaken ?_
  rintro r ⟨hp, ys, hlow | ⟨hix, hret, value', hfill, hys⟩, ho'⟩
  · exact ⟨hp, ys, .inl hlow, ho'⟩
  · exact ⟨hp, ys, .inr ⟨hix, hret, value', hgiven 1 _ hfill, hys⟩, ho'⟩

theorem pop_answers (hl : Lawful T initial) (hm : Models T s xss) (hi : i < s.vectors.length) :
    Meets (Excuse T.toPlatform s.memory False) (Answers T initial s xss (.pop i))
      (step T s (.pop i)) := by
  refine quiet_answers (P := fun refused xs ys => ys = xs.dropLast ∨ refused ∧ ys = xs)
    hm hi (fun v xs hx ho => ?_) (fun refused yss hc => ⟨rfl, hc⟩)
  refine (pop_spec hl ho).weaken ?_
  rintro r ⟨hp, ho' | ⟨href, ho'⟩⟩
  · exact ⟨hp, _, .inl rfl, ho'⟩
  · exact ⟨hp, xs, .inr ⟨href, rfl⟩, ho'⟩

theorem step_answers (hl : Lawful T initial) (hm : Models T s xss) (call : Call α)
    (ha : Allowed T s.vectors call) :
    Meets (Excuse T.toPlatform s.memory (Oversized T xss call)) (Answers T initial s xss call)
      (step T s call) := by
  cases call with
  | create =>
    refine ⟨_, ⟨rfl, rfl⟩, hm.append (w := create) ⟨hm.counted, ?_⟩ (.refl _ _)⟩
    exact ⟨rfl, by simp, rfl⟩
  | copyOf j => exact copyOf_answers hm ha
  | assign i j => exact assign_answers hl hm ha.1 ha.2
  | finishVector i => exact finishVector_answers hl hm ha
  | clear i => exact clear_answers hl hm ha
  | editArrayImpl i => exact editArrayImpl_answers hl hm ha
  | insertArrayAt i array index length => exact insertArrayAt_answers hl hm ha.1 ha.2
  | insertVectorAt i j index => exact insertVectorAt_answers hl hm ha.1 ha.2.1 ha.2.2
  | insertAt i item index n => exact insertAt_answers hl hm ha.1 ha.2
  | replaceAt i item index => exact replaceAt_answers hl hm ha.1 ha.2
  | removeItemsAt i index count =>
    rw [step]
    exact edit_answers (Q := fun xs => Removal xs index count) hm ha.1
      (fun v xs hx ho => removeItemsAt_spec hl ho _ _ ha.2) (fun refused ret yss hc => hc)
  | pop i => exact pop_answers hl hm ha
  | setCapacity i n =>
    rw [step]
    exact edit_answers (Q := fun xs => Reservation xs n) hm ha
      (fun v xs hx ho => setCapacity_spec hl ho n) (fun refused ret yss hc => hc)
  | resize i n =>
    rw [step]
    exact edit_answers (Q := fun xs => Resizing T initial xs n) hm ha
      (fun v xs hx ho => resize_spec hl ho n) (fun refused ret yss hc => hc)
  | sort i cmp =>
    rw [step]
    exact edit_answers (Q := fun xs => Sorting cmp xs) hm ha
      (fun v xs hx ho => sort_spec hl ho) (fun refused ret yss hc => hc)

/-- The lists through the calls of a run, each with the result it gave. -/
inductive Trace (T : VectorType α) (initial : α) :
    Vectors α → List (List (Option α)) → List (Call α × ℤ) → Vectors α →
      List (List (Option α)) → Prop
  | nil (s : Vectors α) (xss : List (List (Option α))) : Trace T initial s xss [] s xss
  | cons {s s' t : Vectors α} {xss yss zss : List (List (Option α))} {call : Call α} {ret : ℤ}
      {ls : List (Call α × ℤ)} (hs : next T s (call, ret) = some s')
      (he : Effect T initial xss (Refused T.refuse s.memory s'.memory) ret yss call)
      (ht : Trace T initial s' yss ls t zss) :
      Trace T initial s xss ((call, ret)::ls) t zss

def initially : Vectors α := ⟨empty, []⟩

theorem initially_models : Models T initially [] where
  counted := counted_empty
  length := rfl
  represents := by simp [initially]

theorem next_answers {t : Vectors α} {l : Call α × ℤ} (hl : Lawful T initial)
    (hm : Models T s xss) (ha : Allowed T s.vectors l.1) (hn : next T s l = some t) :
    Answers T initial s xss l.1 (l.2, t) := by
  have hs := step_answers hl hm _ ha
  simp only [next] at hn
  cases hr : step T s l.1 with
  | error e => simp [hr] at hn
  | ok r =>
    simp only [hr] at hn hs
    split_ifs at hn with hret
    cases hn
    rw [← hret]
    exact hs

theorem run_models {t : Vectors α} {ls : List (Call α × ℤ)} (hl : Lawful T initial)
    (hr : Run (next T) (fun s l => Allowed T s.vectors l.1) s ls t) (hm : Models T s xss) :
    ∃ yss, Trace T initial s xss ls t yss ∧ Models T t yss := by
  induction hr generalizing xss with
  | nil s => exact ⟨xss, .nil s xss, hm⟩
  | cons hn ha _ ih =>
    obtain ⟨yss, he, hmy⟩ := next_answers hl hm ha hn
    obtain ⟨zss, ht, hmz⟩ := ih hmy
    exact ⟨zss, .cons hn he ht, hmz⟩

/-- Three calls on objects, after which two vectors use one buffer. -/
def sharing : List (Call ℕ × ℤ) :=
  [(.create, 0), (.insertArrayAt 0 (.outside [some 3, some 5]) 0 2, 0), (.copyOf 0, 0)]

theorem sharing_run :
    ∃ s, Run (next objects) (fun s l => Allowed objects s.vectors l.1) initially sharing s ∧
      s.vectors = [⟨some 0, 2⟩, ⟨some 0, 2⟩] ∧
      content s.memory 0 = some ⟨16, [some 3, some 5, none, none]⟩ := by
  have hitems : Argued objects [⟨none, 0⟩] 0 2 (.outside [some 3, some 5]) := by
    refine ⟨le_rfl, fun c hc => .inr ?_⟩
    simp only [List.mem_cons, List.not_mem_nil, or_false] at hc
    rcases hc with rfl | rfl <;> rfl
  refine ⟨_, .cons rfl trivial (.cons rfl ⟨Nat.zero_lt_one, hitems⟩
    (.cons rfl Nat.zero_lt_one (.nil _))), ?_, ?_⟩
  · rfl
  · rfl

/-- In every run the vectors stand for separate lists, no call misuses memory or items,
and a call stops only for a size beyond the limits or a copy that cannot be had. -/
theorem run_contents {ls : List (Call α × ℤ)} (hl : Lawful T initial)
    (hr : Run (next T) (fun s l => Allowed T s.vectors l.1) initially ls s) :
    ∃ xss, Trace T initial initially [] ls s xss ∧ Models T s xss ∧
      ∀ call, Allowed T s.vectors call →
        Meets (Excuse T.toPlatform s.memory (Oversized T xss call)) (Answers T initial s xss call)
          (step T s call) := by
  obtain ⟨xss, ht, hm⟩ := run_models hl hr initially_models
  exact ⟨xss, ht, hm, fun call ha => step_answers hl hm call ha⟩

theorem run_contents_shared :
    ∃ s xss, Trace objects 0 initially [] sharing s xss ∧ Models objects s xss := by
  obtain ⟨s, hr, -⟩ := sharing_run
  obtain ⟨xss, ht, hm, -⟩ := run_contents objects_lawful hr
  exact ⟨s, xss, ht, hm⟩

/-- In every run a buffer is allocated exactly while a vector uses it, and its count is
the number of those that do. -/
theorem run_released {ls : List (Call α × ℤ)} (hl : Lawful T initial)
    (hr : Run (next T) (fun s l => Allowed T s.vectors l.1) initially ls s) (b : ℕ) :
    (s.memory.cell b).map Cell.refs =
      if s.vectors.countP (fun v => v.storage = some b) = 0 then none
      else some (s.vectors.countP (fun v => v.storage = some b) : ℤ) := by
  obtain ⟨xss, -, hm⟩ := run_models hl hr initially_models
  rw [← holders_count]
  cases hc : s.memory.cell b with
  | none =>
    have hnot : b ∉ holders s.vectors := by
      intro hb
      obtain ⟨c, hsome⟩ := hm.counted.present b hb
      rw [hc] at hsome
      cases hsome
    rw [if_pos (List.count_eq_zero.mpr hnot)]
    rfl
  | some c =>
    obtain ⟨hrefs, hmem⟩ := hm.counted.refs b c hc
    rw [if_neg (List.count_pos_iff.mpr hmem).ne', Option.map_some, hrefs]

theorem run_released_shared : ∃ s : Vectors ℕ, (s.memory.cell 0).map Cell.refs = some 2 := by
  obtain ⟨s, hr, hv, -⟩ := sharing_run
  refine ⟨s, ?_⟩
  rw [run_released objects_lawful hr 0, hv]
  rfl

/-- In every state of a run sorting a vector permutes its items, whatever the function;
one that is a strict weak order leaves them ordered, and those it does not tell apart in
the order in which they stood. -/
theorem sort_stable {ls : List (Call α × ℤ)} (hl : Lawful T initial)
    (hr : Run (next T) (fun s l => Allowed T s.vectors l.1) initially ls s)
    (cmp : Option α → Option α → ℤ) (hi : i < s.vectors.length) :
    ∃ xss xs, Models T s xss ∧ xss[i]? = some xs ∧
      Meets (Excuse T.toPlatform s.memory False)
        (fun r => ∃ ys, Models T r.2 (xss.set i ys) ∧ ys.Perm xs ∧
          (r.1 = noError ∨ r.1 = noMemory ∧ Refused T.refuse s.memory r.2.memory ∧ ys = xs) ∧
          (r.1 = noError → xs.length < 2^31 → StrictWeak (after cmp) →
            Ordered (after cmp) ys ∧
              ∀ z, ys.filter (Same (after cmp) z) = xs.filter (Same (after cmp) z)))
        (step T s (.sort i cmp)) := by
  obtain ⟨xss, -, hm⟩ := run_models hl hr initially_models
  obtain ⟨v, xs, hv, hx, -⟩ := hm.lookup hi
  refine ⟨xss, xs, hm, hx, (step_answers hl hm (.sort i cmp) hi).weaken ?_⟩
  rintro ⟨ret, t⟩ ⟨yss, ⟨xs', ys, hx', hsort, rfl⟩, hmt⟩
  obtain rfl : xs = xs' := Option.some.inj (hx.symm.trans hx')
  refine ⟨ys, hmt, ?_⟩
  rcases hsort with ⟨rfl, rfl⟩ | ⟨rfl, href, rfl⟩
  · refine ⟨?_, .inl rfl, fun _ hfit hw => ?_⟩
    · split_ifs
      · exact sortRight_perm xs
      · exact .refl xs
    · rw [if_pos hfit]
      exact ⟨sortRight_ordered hw xs, fun z => sortRight_stable hw z xs⟩
  · refine ⟨.refl ys, .inr ⟨rfl, href, rfl⟩, fun hno => ?_⟩
    have hne : noMemory ≠ noError := by decide
    exact absurd hno hne

def descending (a b : Option ℕ) : ℤ := (b.getD 0 : ℤ)-a.getD 0

theorem descending_weak : StrictWeak (after descending) where
  asymm := by
    intro a b h
    simp only [after, decide_eq_true_eq, decide_eq_false_iff_not] at h ⊢
    simp only [descending] at h ⊢
    omega
  trans := by
    intro a b c h h'
    simp only [after, decide_eq_false_iff_not] at h h' ⊢
    simp only [descending] at h h' ⊢
    omega

theorem Models.items {b : ℕ} {x : Payload α} (hm : Models T s xss) (hv : s.vectors[i]? = some v)
    (hx : xss[i]? = some xs) (hb : v.storage = some b) (hc : content s.memory b = some x) :
    xs = x.data.take v.count := by
  obtain ⟨hcount, -, hs⟩ := hm.represents i v xs hv hx
  rw [hb] at hs
  obtain ⟨spare, hstores, -⟩ := hs
  obtain rfl := Option.some.inj (hc.symm.trans hstores)
  rw [hcount, List.take_left]

theorem sort_stable_shared : ∃ (s : Vectors ℕ) (xss : List (List (Option ℕ))),
    Models objects s xss ∧ xss[1]? = some [some 3, some 5] ∧
      Meets (Excuse objects.toPlatform s.memory False)
        (fun r => ∃ ys, Models objects r.2 (xss.set 1 ys) ∧ ys.Perm [some 3, some 5] ∧
          (r.1 = noError → Ordered (after descending) ys))
        (step objects s (.sort 1 descending)) := by
  obtain ⟨s, hr, hv, hc⟩ := sharing_run
  have hi : 1 < s.vectors.length := by
    rw [hv]
    decide
  obtain ⟨xss, xs, hm, hx, hmeets⟩ := sort_stable objects_lawful hr descending hi
  have hsecond : s.vectors[1]? = some ⟨some 0, 2⟩ := by
    rw [hv]
    rfl
  obtain rfl : xs = [some 3, some 5] := hm.items hsecond hx rfl hc
  refine ⟨s, xss, hm, hx, hmeets.weaken ?_⟩
  rintro r ⟨ys, hmt, hp, -, hsorted⟩
  exact ⟨ys, hmt, hp, fun hret => (hsorted hret (by decide) descending_weak).1⟩

end Wingray.VectorHeap
