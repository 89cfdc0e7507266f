import Mathlib.Data.List.GetD
import Wingray.BinarySearch
import Wingray.KeyedList
import Wingray.VectorHeap

/-!
# Sorted vectors

A vector kept in strict order by a comparison, searched by halves. To the program it
is a finite map: at most one item of each class that the comparison tells apart.
-/

set_option autoImplicit false

namespace Wingray.SortedVector
open CountedStore SharedBuffer OutcomeLogic VectorImpl VectorHeap KeyedList BinarySearch

variable {α : Type}

section Functions
variable (T : VectorType α) (doCompare : Option α → Option α → ℤ)

/-- An item of the vector; what lies behind its items is none. -/
def itemOf (h : Memory α) (v : VectorImpl) (i : ℕ) : Except Stop (Option α) := do
  let items ← if i < v.count then readSource h (itemAt v i) 1 else .error .fault
  return items.headD none

def compareAt (h : Memory α) (v : VectorImpl) (item : Source α) (i : ℕ) : Except Stop ℤ := do
  let curr ← itemOf h v i
  let items ← readSource h item 1
  return doCompare curr (items.headD none)

/-- The loop of `_indexOrderOf`, with the index or the error and the order. -/
def indexLoop (h : Memory α) (v : VectorImpl) (item : Source α) (l u : ℤ) :
    Except Stop (ℤ × ℤ) :=
  if l ≤ u then
    match compareAt doCompare h v item (l+(u-l)/2).toNat with
    | .error e => .error e
    | .ok c =>
      if c = 0 then .ok (l+(u-l)/2, l+(u-l)/2)
      else if c < 0 then indexLoop h v item (l+(u-l)/2+1) u
      else indexLoop h v item l (l+(u-l)/2-1)
  else .ok (nameNotFound, l)
termination_by (u+1-l).toNat
decreasing_by all_goals omega

def indexOrderOf (h : Memory α) (v : VectorImpl) (item : Source α) : Except Stop (ℤ × ℤ) :=
  indexLoop doCompare h v item 0 (ssize (sub32 v.count 1))

def indexOf (h : Memory α) (v : VectorImpl) (item : Source α) : Except Stop ℤ := do
  let (index, _) ← indexOrderOf doCompare h v item
  return index

def orderOf (h : Memory α) (v : VectorImpl) (item : Source α) : Except Stop ℕ := do
  let (_, order) ← indexOrderOf doCompare h v item
  return order.toNat

def add (h : Memory α) (v : VectorImpl) (item : Source α) :
    Except Stop (ℤ × VectorImpl × Memory α) := do
  let (index, order) ← indexOrderOf doCompare h v item
  if index < 0 then insertAt T h v item order.toNat 1
  else replaceAt T h v item index.toNat

def mergeLoop (vector : VectorImpl) : ℕ → ℕ → Memory α → VectorImpl →
    Except Stop (ℤ × VectorImpl × Memory α)
  | 0, _, h, v => .ok (noError, v, h)
  | n+1, i, h, v => do
    let (err, v, h) ← add T doCompare h v (itemAt vector i)
    if err < 0 then return (err, v, h)
    mergeLoop vector n (i+1) h v

def mergeVector (h : Memory α) (v vector : VectorImpl) :
    Except Stop (ℤ × VectorImpl × Memory α) :=
  if vector.count = 0 then .ok (noError, v, h)
  else mergeLoop T doCompare vector vector.count 0 h v

/-- `merge` of a sorted vector: first the cases where one lies behind the other. -/
def mergeSorted (h : Memory α) (v vector : VectorImpl) :
    Except Stop (ℤ × VectorImpl × Memory α) := do
  if vector.count = 0 then return (noError, v, h)
  let last ← itemOf h vector (vector.count-1)
  let first ← itemOf h v 0
  if doCompare last first ≤ 0 then insertVectorAt T h v vector 0
  else
    let first ← itemOf h vector 0
    let last ← itemOf h v (v.count-1)
    if 0 ≤ doCompare first last then appendVector T h v vector
    else mergeVector T doCompare h v vector

def remove (h : Memory α) (v : VectorImpl) (item : Source α) :
    Except Stop (ℤ × VectorImpl × Memory α) := do
  let i ← indexOf doCompare h v item
  if 0 ≤ i then
    let (_, v, h) ← removeItemsAt T h v i.toNat 1
    return (i, v, h)
  return (i, v, h)

end Functions

variable {T : VectorType α} {doCompare : Option α → Option α → ℤ} {initial : α} {held : List ℕ}
  {h t : Memory α} {v w : VectorImpl} {xs ys zs : List (Option α)} {value : Option α}
  {item : Source α} {E : Stop → Prop}

theorem itemOf_eq (hr : Represents T h v xs) {i : ℕ} (hi : i < xs.length) :
    itemOf h v i = .ok xs[i] := by
  have hread := hr.read (i := i) (n := 1) (by omega)
  rw [List.drop_eq_getElem_cons hi, List.take_succ_cons, List.take_zero] at hread
  rw [itemOf, hr.1, if_pos hi, hread]
  rfl

def signs (doCompare : Option α → Option α → ℤ) (xs : List (Option α)) (value : Option α)
    (i : ℤ) : ℤ :=
  doCompare (xs.getD i.toNat none) value

theorem indexLoop_eq (doCompare : Option α → Option α → ℤ) (hr : Represents T h v xs)
    (hi : readSource h item 1 = .ok [value])
    (l u : ℤ) (hl : 0 ≤ l) (hu : u < xs.length) :
    indexLoop doCompare h v item l u = .ok
      ((search (signs doCompare xs value) l u).1.getD nameNotFound,
        (search (signs doCompare xs value) l u).2) := by
  have hat : ∀ m : ℤ, 0 ≤ m → m < xs.length →
      compareAt doCompare h v item m.toNat = .ok (signs doCompare xs value m) := by
    intro m hm hlt
    have hlt' : m.toNat < xs.length := by omega
    rw [compareAt, itemOf_eq hr hlt', ok_bind, hi, ok_bind, signs, List.getD_eq_getElem _ _ hlt']
    rfl
  fun_induction search (signs doCompare xs value) l u with
  | case1 l u hle hzero =>
    rw [indexLoop, if_pos hle, hat _ (by omega) (by omega)]
    simp only [hzero, if_true, Option.getD_some]
  | case2 l u hle hzero hneg ih =>
    rw [indexLoop, if_pos hle, hat _ (by omega) (by omega)]
    simp only [if_neg hzero, if_pos hneg]
    exact ih (by omega) hu
  | case3 l u hle hzero hneg ih =>
    rw [indexLoop, if_pos hle, hat _ (by omega) (by omega)]
    simp only [if_neg hzero, if_neg hneg]
    exact ih hl (by omega)
  | case4 l u hle =>
    rw [indexLoop, if_neg hle]
    rfl

theorem signs_split (ht : ThreeWay doCompare) (hs : Strict doCompare xs) (value : Option α) :
    Split (signs doCompare xs value) xs.length := by
  have hlt : ∀ i j : ℤ, 0 ≤ i → i < j → j < xs.length →
      doCompare (xs.getD i.toNat none) (xs.getD j.toNat none) < 0 := by
    intro i j hi hij hj
    have hj' : j.toNat < xs.length := by omega
    have hi' : i.toNat < xs.length := by omega
    rw [List.getD_eq_getElem _ _ hi', List.getD_eq_getElem _ _ hj']
    exact List.pairwise_iff_getElem.mp hs _ _ hi' hj' (by omega)
  constructor
  case below =>
    intro i j hi hij hj hneg
    rcases hij.eq_or_lt with rfl | hij
    · exact hneg
    · exact ht.lt_of_lt_of_le (hlt i j hi hij hj) hneg.le
  case above =>
    intro i j hi hij hj hpos
    rcases hij.eq_or_lt with rfl | hij
    · exact hpos
    · have hback := (ht.flip _ _).mpr hpos
      exact (ht.flip _ _).mp (ht.lt_of_lt_of_le hback (hlt i j hi hij hj).le)

theorem indexOrderOf_spec (ht : ThreeWay doCompare) (hs : Strict doCompare xs)
    (hr : Represents T h v xs) (hi : readSource h item 1 = .ok [value])
    (hsmall : xs.length < 2^31) :
    (∃ m, ∃ hm : m < xs.length, indexOrderOf doCompare h v item = .ok ((m : ℤ), (m : ℤ)) ∧
      doCompare xs[m] value = 0) ∨
    ∃ k ≤ xs.length, indexOrderOf doCompare h v item = .ok (nameNotFound, (k : ℤ)) ∧
      (∀ y ∈ xs.take k, doCompare y value < 0) ∧ ∀ y ∈ xs.drop k, 0 < doCompare y value := by
  have hupper : ssize (sub32 v.count 1) = (xs.length : ℤ)-1 := by
    rw [hr.1]
    rcases Nat.eq_zero_or_pos xs.length with hz | hp
    · rw [hz]
      decide
    · rw [sub32_eq hp (by omega), ssize, if_pos (by omega)]
      omega
  have hrun := indexLoop_eq doCompare hr hi 0 ((xs.length : ℤ)-1) le_rfl (by omega)
  have hloc := search_all (signs_split ht hs value) (by omega)
  rw [indexOrderOf, hupper, hrun]
  revert hloc
  generalize search (signs doCompare xs value) 0 ((xs.length : ℤ)-1) = r
  obtain ⟨_ | m, k⟩ := r
  · rintro ⟨hk, hkn, hbelow, habove⟩
    refine .inr ⟨k.toNat, by omega, ?_, ?_, ?_⟩
    · rw [Option.getD_none, Int.toNat_of_nonneg hk]
    · intro y hy
      obtain ⟨i, hi, rfl⟩ := List.mem_take_iff_getElem.mp hy
      have hneg := hbelow i (by omega) (by omega)
      rwa [signs, Int.toNat_natCast, List.getD_eq_getElem _ _ (by omega)] at hneg
    · intro y hy
      obtain ⟨i, hi, rfl⟩ := List.mem_drop_iff_getElem.mp hy
      have hpos := habove ((k.toNat+i : ℕ) : ℤ) (by push_cast; omega) (by push_cast; omega)
      rwa [signs, Int.toNat_natCast, List.getD_eq_getElem _ _ (by omega)] at hpos
  · rintro ⟨hk, hkm, hmn, hzero⟩
    obtain rfl : k = m := hkm
    have hm : k.toNat < xs.length := by omega
    refine .inl ⟨k.toNat, hm, ?_, ?_⟩
    · rw [Option.getD_some, Int.toNat_of_nonneg hk]
    · rwa [signs, List.getD_eq_getElem _ _ hm] at hzero

theorem ssize_nonneg {n : ℕ} (hn : n < 2^31) : ssize n = n := if_pos hn

structure Value (T : VectorType α) (held : List ℕ) (h : Memory α) (item : Source α)
    (value : Option α) : Prop where
  notNull : item.isNull = false
  readable : Readable T held h item [value]

theorem Value.read (hv : Value T held h item value) : readSource h item 1 = .ok [value] :=
  hv.readable.read (.refl held h)

theorem Value.filling {n : ℕ} {items : List (Option α)} (hv : Value T held h item value)
    (hf : Filling T initial item value n items) : items = List.replicate n value := by
  rwa [Filling, if_neg (by rw [hv.notNull]; decide)] at hf

def Edited (xs zs : List (Option α)) (refused : Prop) (ret : ℤ) (ys : List (Option α)) : Prop :=
  (0 ≤ ret ∧ ys = zs) ∨ (ret = noMemory ∧ refused ∧ ys = xs)

theorem add_spec (hl : Lawful T initial) (ht : ThreeWay doCompare)
    (ho : Owned T held h v xs) (hs : Strict doCompare xs) (hv : Value T held h item value)
    (hsmall : xs.length < 2^31) :
    Meets (Excuse T.toPlatform h (TooMany T (xs.length+1)))
      (Became T held h (Edited xs (upsert doCompare value xs)))
      (add T doCompare h v item) := by
  have hitem : Item T held h item value := fun _ => hv.readable
  rw [add]
  rcases indexOrderOf_spec ht hs ho.represents hv.read hsmall with
    ⟨m, hm, hrun, hzero⟩ | ⟨k, hk, hrun, hbelow, habove⟩
  · rw [hrun, ok_bind]
    simp only [Int.toNat_natCast, if_neg (show ¬ (m : ℤ) < 0 by omega)]
    refine (replaceAt_spec hl ho hitem m).mono (Excuse.mono _ False.elim) ?_
    rintro r ⟨hp, ys, ⟨hge, -⟩ | ⟨-, hret, new, hfill, rfl⟩, ho'⟩
    · omega
    · have hnew : [new] = [value] := hv.filling hfill
      cases hnew
      refine ⟨hp, _, .inl ⟨?_, (upsert_at_entry ht hs hm hzero).symm⟩, ho'⟩
      rw [hret, ssize_nonneg (by omega)]
      omega
  · rw [hrun, ok_bind]
    simp only [Int.toNat_natCast, if_pos (show nameNotFound < 0 by decide)]
    refine (insertAt_spec hl ho hitem k 1).weaken ?_
    rintro r ⟨hp, ys, ⟨hlt, -⟩ | ⟨-, hret, new, hfill, rfl⟩ | ⟨-, hret, rfl, href | h0⟩, ho'⟩
    · omega
    · obtain rfl := hv.filling hfill
      refine ⟨hp, _, .inl ⟨?_, (upsert_at_gap hbelow habove).symm⟩, ho'⟩
      rw [hret, ssize_nonneg (by omega)]
      omega
    · exact ⟨hp, ys, .inr ⟨hret, href, rfl⟩, ho'⟩
    · omega

theorem without_one (xs : List (Option α)) (m : ℕ) :
    without xs m 1 = xs.take m ++ xs.drop (m+1) := rfl

def Removed (doCompare : Option α → Option α → ℤ) (xs : List (Option α)) (value : Option α)
    (refused : Prop) (ret : ℤ) (ys : List (Option α)) : Prop :=
  (ret = nameNotFound ∧ (∀ y ∈ xs, doCompare y value ≠ 0) ∧ ys = xs) ∨
  (0 ≤ ret ∧ (∃ y ∈ xs, doCompare y value = 0) ∧
    (ys = discard doCompare value xs ∨ refused ∧ ys = xs))

theorem remove_spec (hl : Lawful T initial) (ht : ThreeWay doCompare)
    (ho : Owned T held h v xs) (hs : Strict doCompare xs) (hv : Value T held h item value)
    (hsmall : xs.length < 2^31) :
    Meets (Excuse T.toPlatform h False) (Became T held h (Removed doCompare xs value))
      (remove T doCompare h v item) := by
  rw [remove, indexOf]
  rcases indexOrderOf_spec ht hs ho.represents hv.read hsmall with
    ⟨m, hm, hrun, hzero⟩ | ⟨k, hk, hrun, hbelow, habove⟩
  · rw [hrun, ok_bind, pure_bind]
    simp only [Int.toNat_natCast, if_pos (show 0 ≤ (m : ℤ) by omega)]
    refine (removeItemsAt_spec hl ho m 1 (by omega)).bind ?_
    rintro ⟨ret, w, t⟩ ⟨hp, ys, ⟨hlt, -⟩ | ⟨-, -, hys⟩, ho'⟩
    · omega
    · refine ⟨hp, ys, .inr ⟨by positivity, ⟨_, List.getElem_mem hm, hzero⟩, ?_⟩, ho'⟩
      rwa [discard_at_entry ht hs hm hzero, ← without_one]
  · rw [hrun, ok_bind, pure_bind, if_neg (by decide)]
    refine ⟨.refl held h, xs, .inl ⟨rfl, ?_, rfl⟩, ho⟩
    intro y hy
    rw [← List.take_append_drop k xs] at hy
    rcases List.mem_append.mp hy with hy | hy
    · exact (hbelow y hy).ne
    · exact (habove y hy).ne'

/-- What a merge may answer: everything merged, or a part of it when memory is refused. -/
def Merged (doCompare : Option α → Option α → ℤ) (xs zs : List (Option α)) (refused : Prop)
    (ret : ℤ) (ys : List (Option α)) : Prop :=
  (ret = noError ∧ ys = upsertAll doCompare xs zs) ∨
  (ret = noMemory ∧ refused ∧ ∃ n < zs.length,
    ys = upsertAll doCompare xs (zs.take n))

theorem upsertAll_append (xs ys zs : List (Option α)) :
    upsertAll doCompare xs (ys ++ zs) = upsertAll doCompare (upsertAll doCompare xs ys) zs :=
  List.foldl_append

theorem upsert_length (doCompare : Option α → Option α → ℤ) (x : Option α) (xs : List (Option α)) :
    (upsert doCompare x xs).length ≤ xs.length+1 := by
  induction xs with
  | nil => rfl
  | cons y xs ih =>
    rw [upsert]
    split_ifs <;> simp only [List.length_cons] <;> omega

theorem upsertAll_length (doCompare : Option α → Option α → ℤ) (zs : List (Option α)) :
    ∀ xs : List (Option α),
    (upsertAll doCompare xs zs).length ≤ xs.length+zs.length := by
  induction zs with
  | nil => exact fun xs => le_rfl
  | cons z zs ih =>
    intro xs
    have hone := upsert_length doCompare z xs
    have hrest := ih (upsert doCompare z xs)
    change (upsertAll doCompare (upsert doCompare z xs) zs).length ≤ _
    rw [List.length_cons]
    omega

theorem value_of_other (hr : Represents T h w zs)
    (hheld : ∀ b, w.storage = some b → b ∈ held) {i : ℕ} (hi : i < zs.length) :
    Value T held h (itemAt w i) zs[i] := by
  have hs := hr.2.2
  cases hw : w.storage with
  | none =>
    rw [hw] at hs
    simp [hs] at hi
  | some b =>
    rw [hw] at hs
    obtain ⟨spare, hstores, -, -⟩ := hs
    have hat : itemAt w i = (.stored b i : Source α) := by rw [itemAt, hw]
    rw [hat]
    refine ⟨rfl, by simpa using hr.2.1 _ (List.getElem_mem hi), hheld b hw, _, hstores, ?_⟩
    have hslice := slice_eq (zs ++ spare) (i := i) (n := 1) (by rw [List.length_append]; omega)
    rw [List.length_singleton, hslice, List.drop_append_of_le_length (by omega),
      List.drop_eq_getElem_cons hi]
    rfl

theorem mergeLoop_spec (hl : Lawful T initial) (ht : ThreeWay doCompare)
    (hs : Strict doCompare xs) (hheld : ∀ b, w.storage = some b → b ∈ held)
    (hsmall : xs.length+zs.length < 2^31) (n : ℕ) : ∀ {i : ℕ} {h : Memory α} {v : VectorImpl},
    i+n = zs.length → Represents T h w zs →
    Owned T held h v (upsertAll doCompare xs (zs.take i)) →
    Meets (Excuse T.toPlatform h (∃ m ≤ xs.length+zs.length, TooMany T m))
      (Became T held h (Merged doCompare xs zs)) (mergeLoop T doCompare w n i h v) := by
  induction n with
  | zero =>
    intro i h v hi hr ho
    obtain rfl : i = zs.length := by omega
    rw [List.take_length] at ho
    exact ⟨.refl held h, _, .inl ⟨rfl, rfl⟩, ho⟩
  | succ n ih =>
    intro i h v hi hr ho
    have hiz : i < zs.length := by omega
    have htake : zs.take (i+1) = zs.take i ++ [zs[i]] := List.take_succ_eq_append_getElem hiz
    have hlen := upsertAll_length doCompare (zs.take i) xs
    rw [List.length_take_of_le hiz.le] at hlen
    have hnext : upsert doCompare zs[i] (upsertAll doCompare xs (zs.take i)) =
        upsertAll doCompare xs (zs.take (i+1)) := by
      rw [htake, upsertAll_append]
      rfl
    have hadd := add_spec hl ht ho (upsertAll_strict ht hs) (value_of_other hr hheld hiz)
      (by omega)
    rw [hnext] at hadd
    have hmany : TooMany T ((upsertAll doCompare xs (zs.take i)).length+1) →
        ∃ m ≤ xs.length+zs.length, TooMany T m := fun hm => ⟨_, by omega, hm⟩
    rw [mergeLoop]
    refine (hadd.mono (Excuse.mono _ hmany) (fun _ hg => hg)).bind ?_
    rintro ⟨err, u, t⟩ ⟨hp, ys, ⟨hret, rfl⟩ | ⟨hret, href, rfl⟩, ho'⟩
    · have herr : ¬ err < 0 := not_lt.mpr hret
      simp only [herr, if_false]
      have hr' : Represents T t w zs := by
        refine hr.preserved (hp.mono ?_)
        exact fun b hb => hheld b (Option.mem_toList.mp hb)
      refine (ih (by omega) hr' ho').mono (Excuse.later _ hp) ?_
      rintro r ⟨hp', zs', hm, ho''⟩
      refine ⟨hp.trans hp', zs', ?_, ho''⟩
      exact hm.imp_right (fun hno => ⟨hno.1, hno.2.1.later hp, hno.2.2⟩)
    · obtain rfl : err = noMemory := hret
      exact ⟨hp, _, .inr ⟨rfl, href, i, hiz, rfl⟩, ho'⟩

theorem mergeVector_spec (hl : Lawful T initial) (ht : ThreeWay doCompare)
    (ho : Owned T held h v xs) (hs : Strict doCompare xs) (hr : Represents T h w zs)
    (hheld : ∀ b, w.storage = some b → b ∈ held) (hsmall : xs.length+zs.length < 2^31) :
    Meets (Excuse T.toPlatform h (∃ m ≤ xs.length+zs.length, TooMany T m))
      (Became T held h (Merged doCompare xs zs)) (mergeVector T doCompare h v w) := by
  rw [mergeVector, hr.1]
  refine Meets.ite (fun hzero => ?_) (fun _ => ?_)
  · obtain rfl := List.length_eq_zero_iff.mp hzero
    exact ⟨.refl held h, xs, .inl ⟨rfl, rfl⟩, ho⟩
  · exact mergeLoop_spec hl ht hs hheld hsmall zs.length (Nat.zero_add _) hr ho

theorem first_le (ht : ThreeWay doCompare) (hs : Strict doCompare xs) (h0 : 0 < xs.length)
    {y : Option α} (hy : y ∈ xs) : doCompare xs[0] y ≤ 0 := by
  obtain ⟨i, hi, rfl⟩ := List.mem_iff_getElem.mp hy
  rcases Nat.eq_zero_or_pos i with rfl | hpos
  · exact (ht.refl _).le
  · exact (List.pairwise_iff_getElem.mp hs 0 i h0 hi hpos).le

theorem le_last (ht : ThreeWay doCompare) (hs : Strict doCompare xs) (h0 : xs.length-1 < xs.length)
    {y : Option α} (hy : y ∈ xs) : doCompare y xs[xs.length-1] ≤ 0 := by
  obtain ⟨i, hi, rfl⟩ := List.mem_iff_getElem.mp hy
  rcases (Nat.le_sub_one_of_lt hi).eq_or_lt with he | hlt
  · subst he
    exact (ht.refl _).le
  · exact (List.pairwise_iff_getElem.mp hs i _ hi h0 hlt).le

theorem all_before (ht : ThreeWay doCompare) (hs : Strict doCompare xs) (hz : Strict doCompare ys)
    (hx0 : xs.length-1 < xs.length) (hy0 : 0 < ys.length)
    (h : doCompare xs[xs.length-1] ys[0] < 0) : ∀ a ∈ xs, ∀ b ∈ ys, doCompare a b < 0 :=
  fun _ ha _ hb => ht.lt_of_lt_of_le (ht.lt_of_le_of_lt (le_last ht hs hx0 ha) h)
    (first_le ht hz hy0 hb)

theorem not_strict_append {a b : Option α} (ha : a ∈ xs) (hb : b ∈ ys)
    (h : doCompare a b = 0) : ¬ Strict doCompare (xs ++ ys) := by
  intro hs
  have hlt := (List.pairwise_append.mp hs).2.2 a ha b hb
  omega

/-- The items at the ends that face each other are of different classes. -/
def Apart (doCompare : Option α → Option α → ℤ) (xs zs : List (Option α)) : Prop :=
  doCompare (zs.getD (zs.length-1) none) (xs.getD 0 none) ≠ 0 ∧
    doCompare (zs.getD 0 none) (xs.getD (xs.length-1) none) ≠ 0

instance : Decidable (Apart doCompare xs zs) := inferInstanceAs (Decidable (_ ∧ _))

def MergedSorted (doCompare : Option α → Option α → ℤ) (xs zs : List (Option α))
    (refused : Prop) (ret : ℤ) (ys : List (Option α)) : Prop :=
  (0 ≤ ret ∧ (Apart doCompare xs zs → ys = upsertAll doCompare xs zs) ∧
    (¬ Apart doCompare xs zs → ¬ Strict doCompare ys ∧ (ys = zs ++ xs ∨ ys = xs ++ zs))) ∨
  (ret = noMemory ∧ refused ∧ (¬ Apart doCompare xs zs → ys = xs) ∧
    ∃ n < zs.length, ys = upsertAll doCompare xs (zs.take n))

theorem inserted_zero (xs zs : List (Option α)) : inserted xs 0 zs = zs ++ xs := rfl

theorem inserted_end (xs zs : List (Option α)) : inserted xs xs.length zs = xs ++ zs := by
  rw [inserted, List.take_length, List.drop_length, List.append_nil]

theorem readable_all (hr : Represents T h w zs) (hheld : ∀ b, w.storage = some b → b ∈ held) :
    Readable T held h (arrayImpl w) zs := by
  refine ⟨hr.2.1, ?_⟩
  have hs := hr.2.2
  cases hw : w.storage with
  | none =>
    rw [hw] at hs
    simp only [arrayImpl, hw]
    exact hs
  | some b =>
    rw [hw] at hs
    obtain ⟨spare, hstores, -, -⟩ := hs
    simp only [arrayImpl, hw]
    refine ⟨hheld b hw, _, hstores, ?_⟩
    rw [slice_eq _ (by rw [List.length_append]; omega), List.drop_zero, List.take_left]

theorem mergeSorted_spec (hl : Lawful T initial) (ht : ThreeWay doCompare)
    (ho : Owned T held h v xs) (hs : Strict doCompare xs) (hr : Represents T h w zs)
    (hz : Strict doCompare zs) (hheld : ∀ b, w.storage = some b → b ∈ held) (hx0 : 0 < xs.length)
    (hz0 : 0 < zs.length) (hsmall : xs.length+zs.length < 2^31) :
    Meets (Excuse T.toPlatform h (∃ m ≤ xs.length+zs.length, TooMany T m))
      (Became T held h (MergedSorted doCompare xs zs)) (mergeSorted T doCompare h v w) := by
  have hxl : xs.length-1 < xs.length := by omega
  have hzl : zs.length-1 < zs.length := by omega
  have hcount : v.count = xs.length := ho.represents.1
  have hread := readable_all hr hheld
  have hmany : TooMany T (xs.length+zs.length) → ∃ m ≤ xs.length+zs.length, TooMany T m :=
    fun hm => ⟨_, le_rfl, hm⟩
  have hapart : Apart doCompare xs zs ↔ doCompare zs[zs.length-1] xs[0] ≠ 0 ∧
      doCompare zs[0] xs[xs.length-1] ≠ 0 := by
    rw [Apart, List.getD_eq_getElem _ _ hzl, List.getD_eq_getElem _ _ hx0,
      List.getD_eq_getElem _ _ hz0, List.getD_eq_getElem _ _ hxl]
  rw [mergeSorted, hr.1, if_neg (by omega), itemOf_eq hr hzl, ok_bind,
    itemOf_eq ho.represents hx0, ok_bind]
  refine Meets.ite (fun hfront => ?_) (fun hfront => ?_)
  · rw [insertVectorAt, hr.1]
    refine (insertArrayAt_spec hl ho hread 0).mono (Excuse.mono _ hmany) ?_
    rintro r ⟨hp, ys, ⟨hlt, -⟩ | ⟨-, hret, items, rfl, rfl⟩ | ⟨-, hret, rfl, href | h0⟩, ho'⟩
    · omega
    · rw [inserted_zero] at ho'
      refine ⟨hp, _, .inl ⟨by rw [hret]; decide, ?_, ?_⟩, ho'⟩
      · intro hap
        have hlt : doCompare items[items.length-1] xs[0] < 0 :=
          lt_of_le_of_ne hfront (hapart.mp hap).1
        exact (upsertAll_before ht hs hz (all_before ht hz hs hzl hx0 hlt)).symm
      · intro hap
        refine ⟨?_, .inl rfl⟩
        rcases hfront.eq_or_lt with heq | hlt
        · exact not_strict_append (List.getElem_mem hzl) (List.getElem_mem hx0) heq
        · have hall := all_before ht hz hs hzl hx0 hlt
          have hfl := hall _ (List.getElem_mem hz0) _ (List.getElem_mem hxl)
          exact absurd (hapart.mpr ⟨hlt.ne, hfl.ne⟩) hap
    · exact ⟨hp, ys, .inr ⟨hret, href, fun _ => rfl, 0, hz0, rfl⟩, ho'⟩
    · omega
  rw [itemOf_eq hr hz0, ok_bind, hcount, itemOf_eq ho.represents hxl, ok_bind]
  refine Meets.ite (fun hback => ?_) (fun hback => ?_)
  · rw [appendVector, insertVectorAt, hcount, hr.1]
    refine (insertArrayAt_spec hl ho hread xs.length).mono (Excuse.mono _ hmany) ?_
    rintro r ⟨hp, ys, ⟨hlt, -⟩ | ⟨-, hret, items, rfl, rfl⟩ | ⟨-, hret, rfl, href | h0⟩, ho'⟩
    · omega
    · rw [inserted_end] at ho'
      refine ⟨hp, _, .inl ⟨?_, ?_, ?_⟩, ho'⟩
      · rw [hret, ssize_nonneg (by omega)]
        omega
      · intro hap
        have hlt : doCompare xs[xs.length-1] items[0] < 0 := by
          rw [ht.flip]
          exact lt_of_le_of_ne hback (Ne.symm (hapart.mp hap).2)
        exact (upsertAll_after ht hs hz (all_before ht hs hz hxl hz0 hlt)).symm
      · intro hap
        refine ⟨?_, .inr rfl⟩
        have hzero : doCompare items[0] xs[xs.length-1] = 0 := by
          by_contra hne
          exact hap (hapart.mpr ⟨by omega, hne⟩)
        exact not_strict_append (List.getElem_mem hxl) (List.getElem_mem hz0)
          ((ht.same _ _).mp hzero)
    · exact ⟨hp, ys, .inr ⟨hret, href, fun _ => rfl, 0, hz0, rfl⟩, ho'⟩
    · omega
  · refine (mergeVector_spec hl ht ho hs hr hheld hsmall).weaken ?_
    have hap : Apart doCompare xs zs := hapart.mpr ⟨by omega, by omega⟩
    rintro r ⟨hp, ys, ⟨hret, hys⟩ | ⟨hret, href, hpart⟩, ho'⟩
    · exact ⟨hp, ys, .inl ⟨by rw [hret]; decide, fun _ => hys, fun hno => absurd hap hno⟩, ho'⟩
    · exact ⟨hp, ys, .inr ⟨hret, href, fun hno => absurd hap hno, hpart⟩, ho'⟩

/-- The merge compares with the first item of the receiver, which an empty one does not have. -/
theorem mergeSorted_empty (hr : Represents T h w zs) (hz0 : 0 < zs.length) (hv : v.count = 0) :
    mergeSorted T doCompare h v w = .error .fault := by
  rw [mergeSorted, hr.1, if_neg (by omega), itemOf_eq hr (by omega), ok_bind, itemOf,
    if_neg (by omega)]
  rfl

end Wingray.SortedVector
