import Wingray.SortedVector

/-!
# Sorted vectors as finite maps

Any number of sorted vectors, copied, assigned, merged and edited in any order. Each
one stays in strict order, and what it has of each class changes as in a map, until
two sorted vectors are merged whose ends meet in one class: these are only put one
behind the other.
-/

set_option autoImplicit false

namespace Wingray.SortedHeap
open CountedStore SharedBuffer OutcomeLogic VectorImpl VectorHeap KeyedList SortedVector
open GuardedRun

variable {α : Type}

inductive SortedCall (α : Type) where
  | create
  | copyOf (j : ℕ)
  | assign (i j : ℕ)
  | finishVector (i : ℕ)
  | clear (i : ℕ)
  | indexOf (i : ℕ) (item : Argument α)
  | orderOf (i : ℕ) (item : Argument α)
  | add (i : ℕ) (item : Argument α)
  | remove (i : ℕ) (item : Argument α)
  | merge (i j : ℕ)
  | mergeSorted (i j : ℕ)

def withVector (s : Vectors α) (i j : ℕ)
    (f : Memory α → VectorImpl → VectorImpl → Except Stop (ℤ × VectorImpl × Memory α)) :
    Except Stop (ℤ × Vectors α) := do
  match s.vectors[j]? with
  | none => throw .fault
  | some vector => onVector s i (fun h v => f h v vector)

def sortedStep (T : VectorType α) (doCompare : Option α → Option α → ℤ) (s : Vectors α) :
    SortedCall α → Except Stop (ℤ × Vectors α)
  | .create => step T s .create
  | .copyOf j => step T s (.copyOf j)
  | .assign i j => step T s (.assign i j)
  | .finishVector i => step T s (.finishVector i)
  | .clear i => step T s (.clear i)
  | .indexOf i item => onVector s i (fun h v => do
      let index ← indexOf doCompare h v (source s.vectors item)
      return (index, v, h))
  | .orderOf i item => onVector s i (fun h v => do
      let order ← SortedVector.orderOf doCompare h v (source s.vectors item)
      return (order, v, h))
  | .add i item => onVector s i (fun h v => add T doCompare h v (source s.vectors item))
  | .remove i item => onVector s i (fun h v => remove T doCompare h v (source s.vectors item))
  | .merge i j => withVector s i j (mergeVector T doCompare)
  | .mergeSorted i j => withVector s i j (mergeSorted T doCompare)

def sortedNext (T : VectorType α) (doCompare : Option α → Option α → ℤ) (s : Vectors α)
    (l : SortedCall α × ℤ) : Option (Vectors α) :=
  match sortedStep T doCompare s l.1 with
  | .ok (ret, s') => if ret = l.2 then some s' else none
  | .error _ => none

def Within (xss : List (List (Option α))) (i n : ℕ) : Prop :=
  ∀ xs, xss[i]? = some xs → xs.length+n < 2^31

/-- What the code takes for granted in a call, on vectors with the items `xss`. -/
def Permitted (T : VectorType α) (vs : List VectorImpl)
    (xss : List (List (Option α))) : SortedCall α → Prop
  | .create => True
  | .copyOf j => j < vs.length
  | .assign i j => i < vs.length ∧ j < vs.length
  | .finishVector i | .clear i => i < vs.length
  | .indexOf i item | .orderOf i item | .add i item | .remove i item =>
    i < vs.length ∧ Argued T vs i 1 item ∧ Within xss i 1
  | .merge i j => i < vs.length ∧ j < vs.length ∧ j ≠ i ∧
    ∀ zs, xss[j]? = some zs → Within xss i zs.length
  | .mergeSorted i j => i < vs.length ∧ j < vs.length ∧ j ≠ i ∧
    ∀ xs zs, xss[i]? = some xs → xss[j]? = some zs → xs.length+zs.length < 2^31 ∧
      (zs = [] ∨ 0 < xs.length)

/-- A merge of two sorted vectors whose ends meet in items of one class. -/
def Touching (doCompare : Option α → Option α → ℤ) (xss : List (List (Option α))) :
    SortedCall α → Prop
  | .mergeSorted i j => ∃ xs zs, xss[i]? = some xs ∧ xss[j]? = some zs ∧ 0 < zs.length ∧
      ¬ Apart doCompare xs zs
  | _ => False

def Joins (doCompare : Option α → Option α → ℤ) (xs zs : List (Option α)) (refused : Prop)
    (ret : ℤ) (ys : List (Option α)) : Prop :=
  (0 ≤ ret ∧ ∀ z, lookup doCompare z ys = (lookup doCompare z zs).or (lookup doCompare z xs)) ∨
  (ret = noMemory ∧ refused ∧ ∃ n < zs.length, ∀ z,
    lookup doCompare z ys = (lookup doCompare z (zs.take n)).or (lookup doCompare z xs))

/-- What a merge of touching vectors leaves: one behind the other, not in strict order. -/
def Stacks (doCompare : Option α → Option α → ℤ) (xs zs : List (Option α)) (refused : Prop)
    (ret : ℤ) (ys : List (Option α)) : Prop :=
  (0 ≤ ret ∧ (ys = zs ++ xs ∨ ys = xs ++ zs) ∧ ¬ Strict doCompare ys) ∨
  (ret = noMemory ∧ refused ∧ ys = xs)

def SortedEffect (doCompare : Option α → Option α → ℤ) (xss : List (List (Option α)))
    (refused : Prop) (ret : ℤ) (yss : List (List (Option α))) :
    SortedCall α → Prop
  | .create => ret = 0 ∧ yss = xss ++ [[]]
  | .copyOf j => ret = 0 ∧ ∃ xs, xss[j]? = some xs ∧ yss = xss ++ [xs]
  | .assign i j => ret = 0 ∧ ∃ ys, xss[j]? = some ys ∧ yss = xss.set i ys
  | .finishVector i => ret = 0 ∧ yss = xss.set i []
  | .clear i => ret = 0 ∧
      Changes xss i (fun xs ys => ys = [] ∨ refused ∧ ys = xs) yss
  | .indexOf i item => yss = xss ∧ ∃ xs value, xss[i]? = some xs ∧ Denotes xss 1 [value] item ∧
      ((ret = nameNotFound ∧ lookup doCompare value xs = none) ∨
        (0 ≤ ret ∧ lookup doCompare value xs ≠ none ∧
          lookup doCompare value xs = xs[ret.toNat]?))
  | .orderOf i item => yss = xss ∧ ∃ (xs : List (Option α)) (value : Option α) (k : ℕ),
      xss[i]? = some xs ∧ Denotes xss 1 [value] item ∧ ret = k ∧ k ≤ xs.length ∧
      (∀ y ∈ xs.take k, doCompare y value < 0) ∧ ∀ y ∈ xs.drop k, 0 ≤ doCompare y value
  | .add i item => ∃ value, Denotes xss 1 [value] item ∧ Changes xss i (fun xs ys =>
      (0 ≤ ret ∧ ∀ z, lookup doCompare z ys =
        if doCompare value z = 0 then some value else lookup doCompare z xs) ∨
      (ret = noMemory ∧ refused ∧ ys = xs)) yss
  | .remove i item => ∃ value, Denotes xss 1 [value] item ∧ Changes xss i (fun xs ys =>
      (ret = nameNotFound ∧ lookup doCompare value xs = none ∧ ys = xs) ∨
      (0 ≤ ret ∧ lookup doCompare value xs ≠ none ∧
        ((∀ z, lookup doCompare z ys =
          if doCompare value z = 0 then none else lookup doCompare z xs) ∨
        refused ∧ ys = xs))) yss
  | .merge i j => ∃ zs, xss[j]? = some zs ∧
      Changes xss i (fun xs ys => Joins doCompare xs zs refused ret ys) yss
  | .mergeSorted i j => ∃ zs, xss[j]? = some zs ∧ Changes xss i (fun xs ys =>
      if 0 < zs.length ∧ ¬ Apart doCompare xs zs then Stacks doCompare xs zs refused ret ys
      else Joins doCompare xs zs refused ret ys) yss

def SortedOversized (T : VectorType α) (xss : List (List (Option α))) : SortedCall α → Prop
  | .add i _ => ∃ xs, xss[i]? = some xs ∧ TooMany T (xs.length+1)
  | .merge i j | .mergeSorted i j => ∃ xs zs, xss[i]? = some xs ∧ xss[j]? = some zs ∧
      ∃ m ≤ xs.length+zs.length, TooMany T m
  | _ => False

variable {T : VectorType α} {doCompare : Option α → Option α → ℤ} {initial : α}
  {s : Vectors α} {xss yss : List (List (Option α))} {i j : ℕ} {v w : VectorImpl}
  {xs ys zs : List (Option α)} {h : Memory α}

def AllStrict (doCompare : Option α → Option α → ℤ) (xss : List (List (Option α))) : Prop :=
  ∀ xs ∈ xss, Strict doCompare xs

theorem AllStrict.set (hs : AllStrict doCompare xss) (hy : Strict doCompare ys) :
    AllStrict doCompare (xss.set i ys) := by
  intro xs hx
  rcases List.mem_or_eq_of_mem_set hx with hx | rfl
  · exact hs xs hx
  · exact hy

theorem AllStrict.append (hs : AllStrict doCompare xss) (hy : Strict doCompare ys) :
    AllStrict doCompare (xss ++ [ys]) := by
  intro xs hx
  rcases List.mem_append.mp hx with hx | hx
  · exact hs xs hx
  · rwa [List.mem_singleton.mp hx]

theorem AllStrict.at (hs : AllStrict doCompare xss) (hx : xss[i]? = some xs) :
    Strict doCompare xs :=
  hs xs (List.mem_of_getElem? hx)

theorem represents_unique (hx : Represents T h v xs) (hy : Represents T h v ys) : xs = ys := by
  have hlen : xs.length = ys.length := hx.1.symm.trans hy.1
  have hsx := hx.2.2
  have hsy := hy.2.2
  cases hv : v.storage with
  | none =>
    rw [hv] at hsx hsy
    exact hsx.trans hsy.symm
  | some b =>
    rw [hv] at hsx hsy
    obtain ⟨spare, hstores, -⟩ := hsx
    obtain ⟨spare', hstores', -⟩ := hsy
    have hcells := hstores.symm.trans hstores'
    simp only [Option.some.injEq, Payload.mk.injEq] at hcells
    exact (List.append_inj hcells.2 hlen).1

theorem models_unique (hx : Models T s xss) (hy : Models T s yss) : xss = yss := by
  apply List.ext_getElem?
  intro i
  rcases Nat.lt_or_ge i s.vectors.length with hi | hi
  · obtain ⟨v, xs, hv, hxs, -⟩ := hx.lookup hi
    obtain ⟨w, ys, hw, hys, -⟩ := hy.lookup hi
    obtain rfl : v = w := Option.some.inj (hv.symm.trans hw)
    rw [hxs, hys, represents_unique (hx.represents i v xs hv hxs) (hy.represents i v ys hv hys)]
  · rw [List.getElem?_eq_none (hx.length ▸ hi), List.getElem?_eq_none (hy.length ▸ hi)]

def SortedAnswers (T : VectorType α) (doCompare : Option α → Option α → ℤ) (s : Vectors α)
    (xss : List (List (Option α))) (call : SortedCall α) (r : ℤ × Vectors α) : Prop :=
  ∃ yss, SortedEffect doCompare xss (Refused T.refuse s.memory r.2.memory) r.1 yss call ∧
    Models T r.2 yss ∧
    (AllStrict doCompare yss ↔ (Touching doCompare xss call → r.1 < 0))

theorem sorted_answers {call : SortedCall α} {r : ℤ × Vectors α}
    (he : SortedEffect doCompare xss (Refused T.refuse s.memory r.2.memory) r.1 yss call)
    (hm : Models T r.2 yss) (hs : AllStrict doCompare yss)
    (hn : ¬ Touching doCompare xss call) :
    SortedAnswers T doCompare s xss call r :=
  ⟨yss, he, hm, iff_of_true hs (fun ht => absurd ht hn)⟩

theorem sorted_edit {limit : Prop} {Q : List (Option α) → Prop → ℤ → List (Option α) → Prop}
    {f : Memory α → VectorImpl → Except Stop (ℤ × VectorImpl × Memory α)} {call : SortedCall α}
    (hm : Models T s xss) (hs : AllStrict doCompare xss) (hi : i < s.vectors.length)
    (hn : ¬ Touching doCompare xss call)
    (hf : ∀ v xs, xss[i]? = some xs → Owned T (holders (s.vectors.eraseIdx i)) s.memory v xs →
      Meets (Excuse T.toPlatform s.memory limit)
        (Became T (holders (s.vectors.eraseIdx i)) s.memory (Q xs)) (f s.memory v))
    (hstrict : ∀ xs refused ret ys, Strict doCompare xs → Q xs refused ret ys →
      Strict doCompare ys)
    (hq : ∀ refused ret yss, Changes xss i (fun xs ys => Q xs refused ret ys) yss →
      SortedEffect doCompare xss refused ret yss call) :
    Meets (Excuse T.toPlatform s.memory limit) (SortedAnswers T doCompare s xss call)
      (onVector s i f) := by
  refine (onVector_spec hm hi hf).weaken ?_
  rintro r ⟨yss, hc, hmy⟩
  refine sorted_answers (hq _ r.1 yss hc) hmy ?_ hn
  obtain ⟨xs, ys, hx, hqy, rfl⟩ := hc
  exact hs.set (hstrict xs _ r.1 ys (hs.at hx) hqy)

theorem value_argument (hm : Models T s xss) {item : Argument α}
    (ha : Argued T s.vectors i 1 item) :
    ∃ value, Denotes xss 1 [value] item ∧
      Value T (holders (s.vectors.eraseIdx i)) s.memory (source s.vectors item) value := by
  obtain ⟨items, hlen, hden, hread, hnull⟩ := ha.readable hm
  obtain ⟨value, rfl⟩ := List.length_eq_one_iff.mp hlen
  refine ⟨value, hden, ?_, hread⟩
  cases hn : (source s.vectors item).isNull with
  | false => rfl
  | true => exact absurd (hnull hn) one_ne_zero

theorem indexOf_spec {held : List ℕ} {E : Stop → Prop} {item : Source α} {value : Option α}
    (ht : ThreeWay doCompare) (hs : Strict doCompare xs) (hr : Represents T h v xs)
    (hv : Value T held h item value) (hsmall : xs.length < 2^31) :
    Meets E (fun ret => (ret = nameNotFound ∧ lookup doCompare value xs = none) ∨
      (0 ≤ ret ∧ lookup doCompare value xs ≠ none ∧
        lookup doCompare value xs = xs[ret.toNat]?)) (indexOf doCompare h v item) := by
  rw [indexOf]
  rcases indexOrderOf_spec ht hs hr hv.read hsmall with
    ⟨m, hm, hrun, hzero⟩ | ⟨k, hk, hrun, hbelow, habove⟩
  · rw [hrun, ok_bind]
    have hfound := lookup_at_entry ht hs hm hzero
    refine .inr ⟨by positivity, by rw [hfound]; simp, ?_⟩
    rw [hfound, Int.toNat_natCast, List.getElem?_eq_getElem hm]
  · rw [hrun, ok_bind]
    refine .inl ⟨rfl, lookup_none ?_⟩
    intro y hy
    rw [← List.take_append_drop k xs] at hy
    rcases List.mem_append.mp hy with hy | hy
    · exact (hbelow y hy).ne
    · exact (habove y hy).ne'

theorem orderOf_spec {held : List ℕ} {E : Stop → Prop} {item : Source α} {value : Option α}
    (ht : ThreeWay doCompare) (hs : Strict doCompare xs) (hr : Represents T h v xs)
    (hv : Value T held h item value) (hsmall : xs.length < 2^31) :
    Meets E (fun k => k ≤ xs.length ∧ (∀ y ∈ xs.take k, doCompare y value < 0) ∧
      ∀ y ∈ xs.drop k, 0 ≤ doCompare y value) (SortedVector.orderOf doCompare h v item) := by
  rw [SortedVector.orderOf]
  rcases indexOrderOf_spec ht hs hr hv.read hsmall with
    ⟨m, hm, hrun, hzero⟩ | ⟨k, hk, hrun, hbelow, habove⟩
  · rw [hrun, ok_bind]
    exact ⟨hm.le, split_at_entry ht hs hm hzero⟩
  · rw [hrun, ok_bind]
    exact ⟨hk, hbelow, fun y hy => (habove y hy).le⟩

theorem lookup_ne_none {y z : Option α} (hy : y ∈ xs) (hz : doCompare y z = 0) :
    lookup doCompare z xs ≠ none := by
  intro hn
  have hne := List.find?_eq_none.mp hn y hy
  simp [hz] at hne

theorem joins_of_merged (ht : ThreeWay doCompare) (hs : Strict doCompare xs)
    (hz : Strict doCompare zs) {refused : Prop} {ret : ℤ}
    (hm : Merged doCompare xs zs refused ret ys) :
    Joins doCompare xs zs refused ret ys ∧ Strict doCompare ys := by
  rcases hm with ⟨rfl, rfl⟩ | ⟨rfl, href, n, hn, rfl⟩
  · exact ⟨.inl ⟨le_rfl, fun z => lookup_upsertAll ht hs hz⟩, upsertAll_strict ht hs⟩
  · refine ⟨.inr ⟨rfl, href, n, hn, fun z => ?_⟩, upsertAll_strict ht hs⟩
    exact lookup_upsertAll ht hs (hz.sublist (List.take_sublist n zs))

theorem other_vector (hm : Models T s xss) (hj : j < s.vectors.length) (hne : j ≠ i) :
    ∃ w zs, s.vectors[j]? = some w ∧ xss[j]? = some zs ∧ Represents T s.memory w zs ∧
      ∀ b, w.storage = some b → b ∈ holders (s.vectors.eraseIdx i) := by
  obtain ⟨w, zs, hw, hz, -⟩ := hm.lookup hj
  exact ⟨w, zs, hw, hz, hm.represents j w zs hw hz,
    fun b hb => mem_holders (mem_eraseIdx hw hne) hb⟩

theorem indexOf_answers (ht : ThreeWay doCompare) (hm : Models T s xss)
    (hs : AllStrict doCompare xss) {item : Argument α}
    (ha : Permitted T s.vectors xss (.indexOf i item)) :
    Meets (Excuse T.toPlatform s.memory False) (SortedAnswers T doCompare s xss (.indexOf i item))
      (sortedStep T doCompare s (.indexOf i item)) := by
  obtain ⟨hi, harg, hin⟩ := ha
  obtain ⟨value, hden, hv⟩ := value_argument hm harg
  rw [sortedStep]
  refine sorted_edit (Q := fun xs _ ret ys => ys = xs ∧
    ((ret = nameNotFound ∧ lookup doCompare value xs = none) ∨
      (0 ≤ ret ∧ lookup doCompare value xs ≠ none ∧
        lookup doCompare value xs = xs[ret.toNat]?))) hm hs hi id ?_ ?_ ?_
  · intro v xs hx ho
    have hsmall := hin xs hx
    refine (indexOf_spec ht (hs.at hx) ho.represents hv (by omega)).bind ?_
    intro ret hret
    exact ⟨.refl _ _, xs, ⟨rfl, hret⟩, ho⟩
  · rintro xs refused ret ys hxs ⟨rfl, -⟩
    exact hxs
  · rintro refused ret yss ⟨xs, ys, hx, ⟨rfl, hret⟩, rfl⟩
    exact ⟨set_self hx, ys, value, hx, hden, hret⟩

theorem orderOf_answers (ht : ThreeWay doCompare) (hm : Models T s xss)
    (hs : AllStrict doCompare xss) {item : Argument α}
    (ha : Permitted T s.vectors xss (.orderOf i item)) :
    Meets (Excuse T.toPlatform s.memory False) (SortedAnswers T doCompare s xss (.orderOf i item))
      (sortedStep T doCompare s (.orderOf i item)) := by
  obtain ⟨hi, harg, hin⟩ := ha
  obtain ⟨value, hden, hv⟩ := value_argument hm harg
  rw [sortedStep]
  refine sorted_edit (Q := fun xs _ ret ys => ys = xs ∧ ∃ k : ℕ, ret = k ∧ k ≤ xs.length ∧
    (∀ y ∈ xs.take k, doCompare y value < 0) ∧ ∀ y ∈ xs.drop k, 0 ≤ doCompare y value)
    hm hs hi id ?_ ?_ ?_
  · intro v xs hx ho
    have hsmall := hin xs hx
    refine (orderOf_spec ht (hs.at hx) ho.represents hv (by omega)).bind ?_
    intro k hk
    exact ⟨.refl _ _, xs, ⟨rfl, k, rfl, hk⟩, ho⟩
  · rintro xs refused ret ys hxs ⟨rfl, -⟩
    exact hxs
  · rintro refused ret yss ⟨xs, ys, hx, ⟨rfl, k, hk⟩, rfl⟩
    exact ⟨set_self hx, ys, value, k, hx, hden, hk⟩

theorem add_answers (hl : Lawful T initial) (ht : ThreeWay doCompare) (hm : Models T s xss)
    (hs : AllStrict doCompare xss) {item : Argument α}
    (ha : Permitted T s.vectors xss (.add i item)) :
    Meets (Excuse T.toPlatform s.memory (SortedOversized T xss (.add i item)))
      (SortedAnswers T doCompare s xss (.add i item)) (sortedStep T doCompare s (.add i item)) := by
  obtain ⟨hi, harg, hin⟩ := ha
  obtain ⟨value, hden, hv⟩ := value_argument hm harg
  rw [sortedStep]
  refine sorted_edit (Q := fun xs => Edited xs (upsert doCompare value xs))
    hm hs hi id ?_ ?_ ?_
  · intro v xs hx ho
    have hsmall := hin xs hx
    exact (add_spec hl ht ho (hs.at hx) hv (by omega)).mono
      (Excuse.mono _ (fun hmany => ⟨xs, hx, hmany⟩)) (fun _ hb => hb)
  · rintro xs refused ret ys hxs (⟨-, rfl⟩ | ⟨-, -, rfl⟩)
    · exact upsert_strict ht hxs
    · exact hxs
  · rintro refused ret yss ⟨xs, ys, hx, hys, rfl⟩
    refine ⟨value, hden, xs, ys, hx, ?_, rfl⟩
    rcases hys with ⟨hret, rfl⟩ | hno
    · exact .inl ⟨hret, fun z => lookup_upsert ht (hs.at hx)⟩
    · exact .inr hno

theorem remove_answers (hl : Lawful T initial) (ht : ThreeWay doCompare) (hm : Models T s xss)
    (hs : AllStrict doCompare xss) {item : Argument α}
    (ha : Permitted T s.vectors xss (.remove i item)) :
    Meets (Excuse T.toPlatform s.memory False) (SortedAnswers T doCompare s xss (.remove i item))
      (sortedStep T doCompare s (.remove i item)) := by
  obtain ⟨hi, harg, hin⟩ := ha
  obtain ⟨value, hden, hv⟩ := value_argument hm harg
  rw [sortedStep]
  refine sorted_edit (Q := fun xs => Removed doCompare xs value) hm hs hi id ?_ ?_ ?_
  · intro v xs hx ho
    have hsmall := hin xs hx
    exact remove_spec hl ht ho (hs.at hx) hv (by omega)
  · rintro xs refused ret ys hxs (⟨-, -, rfl⟩ | ⟨-, -, rfl | ⟨-, rfl⟩⟩)
    · exact hxs
    · exact discard_strict hxs
    · exact hxs
  · rintro refused ret yss ⟨xs, ys, hx, hys, rfl⟩
    refine ⟨value, hden, xs, ys, hx, ?_, rfl⟩
    rcases hys with ⟨hret, habsent, rfl⟩ | ⟨hret, ⟨y, hy, hyz⟩, rfl | hno⟩
    · exact .inl ⟨hret, lookup_none habsent, rfl⟩
    · exact .inr ⟨hret, lookup_ne_none hy hyz, .inl (fun z => lookup_discard ht z)⟩
    · exact .inr ⟨hret, lookup_ne_none hy hyz, .inr hno⟩

theorem merge_answers (hl : Lawful T initial) (ht : ThreeWay doCompare) (hm : Models T s xss)
    (hs : AllStrict doCompare xss) (ha : Permitted T s.vectors xss (.merge i j)) :
    Meets (Excuse T.toPlatform s.memory (SortedOversized T xss (.merge i j)))
      (SortedAnswers T doCompare s xss (.merge i j)) (sortedStep T doCompare s (.merge i j)) := by
  obtain ⟨hi, hj, hne, hin⟩ := ha
  obtain ⟨w, zs, hw, hz, hr, hheld⟩ := other_vector hm hj hne
  simp only [sortedStep, withVector, hw]
  refine sorted_edit (Q := fun xs refused ret ys =>
    Strict doCompare xs ∧ Merged doCompare xs zs refused ret ys)
    hm hs hi id ?_ ?_ ?_
  · intro v xs hx ho
    refine (mergeVector_spec hl ht ho (hs.at hx) hr hheld (hin zs hz xs hx)).mono
      (Excuse.mono _ (fun hmany => ⟨xs, zs, hx, hz, hmany⟩)) ?_
    rintro r ⟨hp, ys, hys, ho'⟩
    exact ⟨hp, ys, ⟨hs.at hx, hys⟩, ho'⟩
  · rintro xs refused ret ys hxs ⟨-, hys⟩
    exact (joins_of_merged ht hxs (hs.at hz) hys).2
  · rintro refused ret yss ⟨xs, ys, hx, ⟨hxs, hys⟩, rfl⟩
    exact ⟨zs, hz, xs, ys, hx, (joins_of_merged ht hxs (hs.at hz) hys).1, rfl⟩

def Gathered (doCompare : Option α → Option α → ℤ) (xs zs : List (Option α)) (refused : Prop)
    (ret : ℤ) (ys : List (Option α)) : Prop :=
  (if 0 < zs.length ∧ ¬ Apart doCompare xs zs then Stacks doCompare xs zs refused ret ys
    else Joins doCompare xs zs refused ret ys) ∧
  (Strict doCompare ys ↔ (0 < zs.length ∧ ¬ Apart doCompare xs zs → ret < 0))

theorem gathered_of_merged (ht : ThreeWay doCompare) (hs : Strict doCompare xs)
    (hz : Strict doCompare zs) (hz0 : 0 < zs.length) {refused : Prop}
    {ret : ℤ} (hm : MergedSorted doCompare xs zs refused ret ys) :
    Gathered doCompare xs zs refused ret ys := by
  by_cases hap : Apart doCompare xs zs
  · have hno : ¬ (0 < zs.length ∧ ¬ Apart doCompare xs zs) := fun h => h.2 hap
    rw [Gathered, if_neg hno]
    have hjoin : Joins doCompare xs zs refused ret ys ∧ Strict doCompare ys := by
      rcases hm with ⟨hret, hys, -⟩ | ⟨hret, href, -, hpart⟩
      · obtain rfl := hys hap
        exact ⟨.inl ⟨hret, fun z => lookup_upsertAll ht hs hz⟩, upsertAll_strict ht hs⟩
      · exact joins_of_merged ht hs hz (.inr ⟨hret, href, hpart⟩)
    exact ⟨hjoin.1, iff_of_true hjoin.2 (fun h => absurd h hno)⟩
  · rw [Gathered, if_pos ⟨hz0, hap⟩]
    rcases hm with ⟨hret, -, hys⟩ | ⟨hret, href, hys, -⟩
    · obtain ⟨hnot, hstack⟩ := hys hap
      refine ⟨.inl ⟨hret, hstack, hnot⟩, iff_of_false hnot ?_⟩
      exact fun h => absurd (h ⟨hz0, hap⟩) (not_lt.mpr hret)
    · obtain rfl := hys hap
      exact ⟨.inr ⟨hret, href, rfl⟩, iff_of_true hs (fun _ => hret ▸ by decide)⟩

theorem mergeSorted_answers (hl : Lawful T initial) (ht : ThreeWay doCompare) (hm : Models T s xss)
    (hs : AllStrict doCompare xss) (ha : Permitted T s.vectors xss (.mergeSorted i j)) :
    Meets (Excuse T.toPlatform s.memory (SortedOversized T xss (.mergeSorted i j)))
      (SortedAnswers T doCompare s xss (.mergeSorted i j))
      (sortedStep T doCompare s (.mergeSorted i j)) := by
  obtain ⟨hi, hj, hne, hin⟩ := ha
  obtain ⟨w, zs, hw, hz, hr, hheld⟩ := other_vector hm hj hne
  simp only [sortedStep, withVector, hw]
  refine (onVector_spec (Q := fun xs => Gathered doCompare xs zs) hm hi ?_).weaken ?_
  · intro v xs hx ho
    obtain ⟨hsmall, hends⟩ := hin xs zs hx hz
    by_cases hz0 : zs = []
    · subst hz0
      rw [mergeSorted, hr.1, if_pos List.length_nil]
      have hno : ¬ (0 < ([] : List (Option α)).length ∧ ¬ Apart doCompare xs []) := by simp
      refine ⟨.refl _ _, xs, ?_, ho⟩
      show Gathered doCompare xs [] _ noError xs
      rw [Gathered, if_neg hno]
      exact ⟨.inl ⟨le_rfl, fun z => rfl⟩, iff_of_true (hs.at hx) (fun h => absurd h hno)⟩
    have hz0' := List.length_pos_of_ne_nil hz0
    refine (mergeSorted_spec hl ht ho (hs.at hx) hr (hs.at hz) hheld (hends.resolve_left hz0)
      hz0' hsmall).mono (Excuse.mono _ (fun hmany => ⟨xs, zs, hx, hz, hmany⟩)) ?_
    rintro r ⟨hp, ys, hys, ho'⟩
    exact ⟨hp, ys, gathered_of_merged ht (hs.at hx) (hs.at hz) hz0' hys, ho'⟩
  · rintro r ⟨yss, ⟨xs, ys, hx, ⟨hys, hstrict⟩, rfl⟩, hmy⟩
    refine ⟨_, ⟨zs, hz, xs, ys, hx, hys, rfl⟩, hmy, ?_⟩
    have htouch : Touching doCompare xss (.mergeSorted i j) ↔
        0 < zs.length ∧ ¬ Apart doCompare xs zs := by
      constructor
      · rintro ⟨xs', zs', hx', hz', h⟩
        obtain rfl : xs = xs' := Option.some.inj (hx.symm.trans hx')
        obtain rfl : zs = zs' := Option.some.inj (hz.symm.trans hz')
        exact h
      · exact fun h => ⟨xs, zs, hx, hz, h⟩
    rw [htouch, ← hstrict]
    have hi' : i < xss.length := (List.getElem?_eq_some_iff.mp hx).1
    exact ⟨fun hall => hall.at (List.getElem?_set_self hi'), hs.set⟩

theorem sortedStep_answers (hl : Lawful T initial) (ht : ThreeWay doCompare)
    (hm : Models T s xss) (hs : AllStrict doCompare xss) {call : SortedCall α}
    (ha : Permitted T s.vectors xss call) :
    Meets (Excuse T.toPlatform s.memory (SortedOversized T xss call))
      (SortedAnswers T doCompare s xss call) (sortedStep T doCompare s call) := by
  have hnil : Strict doCompare [] := List.Pairwise.nil
  cases call with
  | create =>
    refine (step_answers hl hm .create trivial).weaken ?_
    rintro r ⟨yss, ⟨hret, rfl⟩, hmy⟩
    exact sorted_answers ⟨hret, rfl⟩ hmy (hs.append hnil) id
  | copyOf j =>
    refine (step_answers hl hm (.copyOf j) ha).weaken ?_
    rintro r ⟨yss, ⟨hret, xs, hx, rfl⟩, hmy⟩
    exact sorted_answers ⟨hret, xs, hx, rfl⟩ hmy (hs.append (hs.at hx)) id
  | assign i j =>
    refine (step_answers hl hm (.assign i j) ha).weaken ?_
    rintro r ⟨yss, ⟨hret, ys, hy, rfl⟩, hmy⟩
    exact sorted_answers ⟨hret, ys, hy, rfl⟩ hmy (hs.set (hs.at hy)) id
  | finishVector i =>
    refine (step_answers hl hm (.finishVector i) ha).weaken ?_
    rintro r ⟨yss, ⟨hret, rfl⟩, hmy⟩
    exact sorted_answers ⟨hret, rfl⟩ hmy (hs.set hnil) id
  | clear i =>
    refine (step_answers hl hm (.clear i) ha).weaken ?_
    rintro r ⟨yss, ⟨hret, xs, ys, hx, hys, rfl⟩, hmy⟩
    refine sorted_answers ⟨hret, xs, ys, hx, hys, rfl⟩ hmy (hs.set ?_) id
    rcases hys with rfl | ⟨-, rfl⟩
    · exact hnil
    · exact hs.at hx
  | indexOf i item => exact indexOf_answers ht hm hs ha
  | orderOf i item => exact orderOf_answers ht hm hs ha
  | add i item => exact add_answers hl ht hm hs ha
  | remove i item => exact remove_answers hl ht hm hs ha
  | merge i j => exact merge_answers hl ht hm hs ha
  | mergeSorted i j => exact mergeSorted_answers hl ht hm hs ha

/-- The lists through the calls of a run, each with the result it gave. -/
inductive SortedTrace (T : VectorType α) (doCompare : Option α → Option α → ℤ) :
    Vectors α → List (List (Option α)) → List (SortedCall α × ℤ) → Vectors α →
      List (List (Option α)) → Prop
  | nil (s : Vectors α) (xss : List (List (Option α))) : SortedTrace T doCompare s xss [] s xss
  | cons {s s' t : Vectors α} {xss yss zss : List (List (Option α))} {call : SortedCall α}
      {ret : ℤ} {ls : List (SortedCall α × ℤ)}
      (hs : sortedNext T doCompare s (call, ret) = some s')
      (he : SortedEffect doCompare xss (Refused T.refuse s.memory s'.memory) ret yss call)
      (hr : SortedTrace T doCompare s' yss ls t zss) :
      SortedTrace T doCompare s xss ((call, ret)::ls) t zss

/-- A step whose call is permitted by what the vectors hold, and merges no touching ones. -/
def PermittedStep (T : VectorType α) (doCompare : Option α → Option α → ℤ) (s : Vectors α)
    (l : SortedCall α × ℤ) : Prop :=
  ∃ xss, Models T s xss ∧ Permitted T s.vectors xss l.1 ∧ ¬ Touching doCompare xss l.1

theorem sortedRun_models {t : Vectors α} {ls : List (SortedCall α × ℤ)} (hl : Lawful T initial)
    (ht : ThreeWay doCompare)
    (hr : Run (sortedNext T doCompare) (PermittedStep T doCompare) s ls t) (hm : Models T s xss)
    (hs : AllStrict doCompare xss) :
    ∃ yss, SortedTrace T doCompare s xss ls t yss ∧ Models T t yss ∧ AllStrict doCompare yss := by
  induction hr generalizing xss with
  | nil s => exact ⟨xss, .nil s xss, hm, hs⟩
  | @cons s s' t l ls hn ha _ ih =>
    obtain ⟨yss, hm', hp, hapart⟩ := ha
    obtain rfl := models_unique hm hm'
    have hstep := sortedStep_answers hl ht hm hs hp
    have hnext := hn
    simp only [sortedNext] at hn
    cases hres : sortedStep T doCompare s l.1 with
    | error e => simp [hres] at hn
    | ok r =>
      simp only [hres] at hn hstep
      split_ifs at hn with hret
      cases hn
      obtain ⟨yss, he, hmy, hsy⟩ := hstep
      obtain ⟨zss, hz, hmz, hsz⟩ := ih hmy (hsy.mpr (fun htouch => absurd htouch hapart))
      rw [hret] at he
      exact ⟨zss, .cons hnext he hz, hmz, hsz⟩

/-- In every run without a merge of touching vectors each sorted vector stays in strict
order and changes as a finite map; the next call leaves that so unless it is such a merge. -/
theorem sortedRun_maps {ls : List (SortedCall α × ℤ)} (hl : Lawful T initial)
    (ht : ThreeWay doCompare)
    (hr : Run (sortedNext T doCompare) (PermittedStep T doCompare) initially ls s) :
    ∃ xss, SortedTrace T doCompare initially [] ls s xss ∧ Models T s xss ∧
      AllStrict doCompare xss ∧ ∀ call, Permitted T s.vectors xss call →
        Meets (Excuse T.toPlatform s.memory (SortedOversized T xss call))
          (SortedAnswers T doCompare s xss call) (sortedStep T doCompare s call) := by
  have hnone : AllStrict doCompare [] := by simp [AllStrict]
  obtain ⟨xss, htrace, hm, hs⟩ := sortedRun_models hl ht hr initially_models hnone
  exact ⟨xss, htrace, hm, hs, fun call hp => sortedStep_answers hl ht hm hs hp⟩

def compareNumbers (a b : Option ℕ) : ℤ := (a.getD 0 : ℤ)-b.getD 0

theorem compareNumbers_threeWay : ThreeWay compareNumbers where
  swap := by
    intro a b
    simp only [compareNumbers]
    omega
  trans := by
    intro a b c
    simp only [compareNumbers]
    omega

def merging : List (SortedCall ℕ × ℤ) :=
  [(.create, 0), (.create, 0), (.add 0 (.outside [some 5]), 0), (.merge 1 0, 0),
    (.indexOf 1 (.outside [some 5]), 0), (.remove 1 (.outside [some 5]), 0)]

def small (s : Vectors ℕ) (l : SortedCall ℕ × ℤ) : Bool :=
  s.vectors.all (fun v => v.count < 4) && match l.1 with
    | .create => true
    | .indexOf i (.outside [some _]) | .add i (.outside [some _])
    | .remove i (.outside [some _]) => i < s.vectors.length
    | .merge i j => i < s.vectors.length && j < s.vectors.length && j ≠ i
    | _ => false

theorem outside_argued (vs : List VectorImpl) (i n : ℕ) :
    Argued objects vs i 1 (.outside [some n]) := by
  refine ⟨le_rfl, fun c hc => .inr ?_⟩
  rw [List.mem_singleton.mp hc]
  rfl

theorem small_permitted {s : Vectors ℕ} {xss : List (List (Option ℕ))} {l : SortedCall ℕ × ℤ}
    (hm : Models objects s xss) (hl : small s l = true) :
    Permitted objects s.vectors xss l.1 ∧ ¬ Touching compareNumbers xss l.1 := by
  obtain ⟨call, ret⟩ := l
  simp only [small, Bool.and_eq_true, List.all_eq_true, decide_eq_true_eq] at hl
  obtain ⟨hcount, hl⟩ := hl
  have hlen : ∀ (i : ℕ) (xs : List (Option ℕ)), xss[i]? = some xs → xs.length < 4 := by
    intro i xs hx
    have hi : i < s.vectors.length := hm.length ▸ (List.getElem?_eq_some_iff.mp hx).1
    obtain ⟨v, ys, hv, hy, hc⟩ := hm.lookup hi
    obtain rfl : xs = ys := Option.some.inj (hx.symm.trans hy)
    exact hc ▸ hcount v (List.mem_of_getElem? hv)
  have hin : ∀ i n : ℕ, n < 4 → Within xss i n := by
    intro i n hn xs hx
    have hfew := hlen i xs hx
    omega
  cases call with
  | create => exact ⟨trivial, id⟩
  | indexOf i item | add i item | remove i item =>
    cases item with
    | outside items =>
      match items, hl with
      | [some n], hi =>
        exact ⟨⟨by simpa using hi, outside_argued _ i n, hin i 1 (by decide)⟩, id⟩
    | _ => simp at hl
  | merge i j =>
    simp only [Bool.and_eq_true, decide_eq_true_eq] at hl
    exact ⟨⟨hl.1.1, hl.1.2, hl.2, fun zs hz => hin i _ (hlen j zs hz)⟩, id⟩
  | _ => simp at hl

theorem sortedRun_maps_merging : ∃ s xss, Models objects s xss ∧ AllStrict compareNumbers xss ∧
    SortedTrace objects compareNumbers initially [] merging s xss := by
  have hsome : (final (sortedNext objects compareNumbers) (fun s l => small s l = true)
      initially merging).isSome = true := by decide +kernel
  obtain ⟨s, hs⟩ := Option.isSome_iff_exists.mp hsome
  have hrun : Run (sortedNext objects compareNumbers) (PermittedStep objects compareNumbers)
      initially merging s := by
    apply (final_run hs).transfer
      (fun s => ∃ xss, Models objects s xss ∧ AllStrict compareNumbers xss)
    · rintro s l s' ⟨xss, hm, hs⟩ hl hn
      have hp : PermittedStep objects compareNumbers s l := ⟨xss, hm, small_permitted hm hl⟩
      obtain ⟨yss, -, hmy, hsy⟩ := sortedRun_models objects_lawful compareNumbers_threeWay
        (.cons hn hp (.nil s')) hm hs
      exact ⟨hp, yss, hmy, hsy⟩
    · exact ⟨[], initially_models, by simp [AllStrict]⟩
  obtain ⟨xss, ht, hm, hstrict, -⟩ := sortedRun_maps objects_lawful compareNumbers_threeWay hrun
  exact ⟨s, xss, hm, hstrict, ht⟩

-- two vectors of one item each that touch: the merge leaves both items
example : (final (sortedNext objects compareNumbers) (fun _ _ => True) initially
    [(.create, 0), (.create, 0), (.add 0 (.outside [some 1]), 0),
      (.add 1 (.outside [some 1]), 0), (.mergeSorted 1 0, 0)]).map
    (fun s => s.vectors.map VectorImpl.count) = some [1, 2] := by
  decide +kernel

end Wingray.SortedHeap
