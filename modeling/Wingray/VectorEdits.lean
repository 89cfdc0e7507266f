import Wingray.VectorGrowth

/-!
# What the operations on a vector do

Each operation does its edit, or answers with an error and leaves the items as they
were. An argument that points at items is read after the buffer has changed, so it
has to point outside every vector or into the buffer of another one.
-/

set_option autoImplicit false

namespace Wingray.VectorImpl
open CountedStore SharedBuffer OutcomeLogic

variable {α : Type} {T : VectorType α} {initial : α} {held : List ℕ} {h t : Memory α}
  {v : VectorImpl} {xs items : List (Option α)} {b n : ℕ} {E : Stop → Prop}

def inserted (xs : List (Option α)) (index : ℕ) (items : List (Option α)) : List (Option α) :=
  xs.take index ++ (items ++ xs.drop index)

theorem inserted_length {index : ℕ} :
    (inserted xs index items).length = xs.length+items.length := by
  simp only [inserted, List.length_append, List.length_take, List.length_drop]
  omega

/-- What an argument points at, where the vector itself cannot move it. -/
def Readable (T : VectorType α) (held : List ℕ) (h : Memory α) (source : Source α)
    (items : List (Option α)) : Prop :=
  (∀ c ∈ items, Live T c) ∧
  match source with
  | .null => items = []
  | .outside ys => slice ys 0 items.length = some items
  | .stored b i => b ∈ held ∧ ∃ x, content h b = some x ∧
      slice x.data i items.length = some items

theorem Readable.read {source : Source α} (hr : Readable T held h source items)
    (hp : Preserved held h t) : readSource t source items.length = .ok items := by
  obtain ⟨-, hs⟩ := hr
  cases source with
  | null =>
    obtain rfl : items = [] := hs
    rfl
  | outside ys =>
    have hslice : slice ys 0 items.length = some items := hs
    rw [readSource, hslice]
    rfl
  | stored b i =>
    obtain ⟨hb, x, hx, hslice⟩ := hs
    obtain ⟨r, hcell⟩ := content_cell ((hp.kept b hb).trans hx)
    rw [readSource, cellAt_some hcell, ok_bind, hslice]
    rfl

def Fresh (T : VectorType α) (initial : α) (n : ℕ) (items : List (Option α)) : Prop :=
  items.length = n ∧ (T.trivialCtor = false → items = List.replicate n (some initial))

theorem Fresh.live (hf : Fresh T initial n items) : ∀ c ∈ items, Live T c := by
  intro c hc
  cases ht : T.trivialCtor with
  | true => exact .inl ht
  | false =>
    rw [hf.2 ht] at hc
    exact .inr (by rw [List.eq_of_mem_replicate hc]; rfl)

theorem doConstruct_eq (hl : Lawful T initial) (l m r : List (Option α))
    (hm : ∀ c ∈ m, Raw T c) : ∃ items, Fresh T initial m.length items ∧
      doConstruct T (l++(m++r)) l.length m.length = some (l ++ (items ++ r)) := by
  rw [doConstruct]
  split
  case isTrue ht => exact ⟨m, ⟨rfl, fun hn => by rw [ht] at hn; cases hn⟩, rfl⟩
  case isFalse =>
    exact ⟨_, ⟨List.length_replicate, fun _ => rfl⟩, hl.construct l m r hm⟩

theorem Opened.fill {index amount : ℕ} (hlive : ∀ c ∈ xs, Live T c)
    (ho : Opened T held h b xs index amount)
    {f : List (Option α) → Option (List (Option α))} {P : List (Option α) → Prop}
    (hf : ∀ gap r : List (Option α), gap.length = amount → (∀ c ∈ gap, Raw T c) →
      ∃ items, P items ∧ items.length = amount ∧ (∀ c ∈ items, Live T c) ∧
        f (xs.take index ++ (gap ++ r)) = some (xs.take index ++ (items ++ r))) :
    Meets E (fun t => Preserved held h t ∧ ∃ items, P items ∧
      Owned T held t ⟨some b, xs.length+amount⟩ (inserted xs index items))
      (modify h b f) := by
  obtain ⟨hb, hc, gap, spare, hgap, hrawgap, hraw, hfits, hs⟩ := ho
  obtain ⟨items, hP, hlen, hilive, hfill⟩ := hf gap (xs.drop index ++ spare) hgap hrawgap
  have hcells : (xs.take index ++ (items ++ (xs.drop index ++ spare))).length =
      (xs.take index ++ (gap ++ (xs.drop index ++ spare))).length := by
    simp only [List.length_append, hlen, hgap]
  refine (modify_spec hc hs hb hfill hcells).weaken ?_
  rintro t ⟨hct, hp, hst⟩
  have hst' : Stores T t b (inserted xs index items ++ spare) := by
    rwa [inserted, List.append_assoc, List.append_assoc]
  refine ⟨hp, items, hP, owned_of_stores hct ?_ hst' ?_ hraw ?_⟩
  · intro c hm
    simp only [inserted, List.mem_append] at hm
    rcases hm with hm | hm | hm
    · exact hlive c (List.mem_of_mem_take hm)
    · exact hilive c hm
    · exact hlive c (List.mem_of_mem_drop hm)
  · rwa [List.length_append, inserted_length, hlen]
  · rw [inserted_length, hlen]

/-- What an insertion of `n` items at `index` may answer; `P` says which items. -/
def Insertion (xs : List (Option α)) (index n : ℕ) (P : List (Option α) → Prop) (refused : Prop)
    (ret : ℤ) (ys : List (Option α)) : Prop :=
  (xs.length < index ∧ ret = badIndex ∧ ys = xs) ∨
  (index ≤ xs.length ∧ ret = ssize index ∧ ∃ items, P items ∧ ys = inserted xs index items) ∨
  (index ≤ xs.length ∧ ret = noMemory ∧ ys = xs ∧ (refused ∨ n = 0))

/-- The vector has become another with the items of an answer `Q`, which is told whether
a request was refused meanwhile. -/
def Became (T : VectorType α) (held : List ℕ) (h : Memory α)
    (Q : Prop → ℤ → List (Option α) → Prop) (r : ℤ × VectorImpl × Memory α) : Prop :=
  Preserved held h r.2.2 ∧ ∃ ys, Q (Refused T.refuse h r.2.2) r.1 ys ∧
    Owned T held r.2.2 r.2.1 ys

theorem insertArrayAt_spec (hl : Lawful T initial) (ho : Owned T held h v xs)
    {array : Source α} (hr : Readable T held h array items) (index : ℕ) :
    Meets (Excuse T.toPlatform h (TooMany T (xs.length+items.length)))
      (Became T held h (Insertion xs index items.length (fun ys => ys = items)))
      (insertArrayAt T h v array index items.length) := by
  have hcount : v.count = xs.length := ho.represents.1
  have hlive := ho.represents.2.1
  rw [insertArrayAt, hcount]
  refine Meets.ite (fun hlt => ?_) (fun hix => ?_)
  · exact ⟨.refl held h, xs, .inl ⟨hlt, rfl, rfl⟩, ho⟩
  have hix : index ≤ xs.length := not_lt.mp hix
  refine (grow_spec hl ho hix items.length).bind ?_
  rintro ⟨_ | ⟨b, i⟩, w, h₁⟩ ⟨hp₁, hg⟩
  · exact ⟨hp₁, xs, .inr (.inr ⟨hix, rfl, rfl, hg.1⟩), hg.2⟩
  obtain ⟨hi, hw, hopen⟩ := hg
  obtain rfl : i = index := hi
  obtain rfl : w = ⟨some b, xs.length+items.length⟩ := hw
  have hread := hr.read hp₁
  refine Meets.bind (Q := fun u => Preserved held h₁ u ∧ ∃ ys, ys = items ∧
    Owned T held u ⟨some b, xs.length+items.length⟩ (inserted xs i ys)) ?_ ?_
  · rw [copyInto, hread, ok_bind]
    refine hopen.fill hlive ?_
    intro gap r hgap hraw
    refine ⟨items, rfl, rfl, hr.1, ?_⟩
    have hcopy := doCopy_eq hl (xs.take i) gap r hgap.symm hraw hr.1
    rwa [List.length_take_of_le hix] at hcopy
  · rintro u ⟨hp₂, ys, rfl, hou⟩
    exact ⟨hp₁.trans hp₂, _, .inr (.inl ⟨hix, rfl, ys, rfl, rfl⟩), hou⟩

/-- What `insertAt` puts into the gap: copies of the item, or new ones for a null item. -/
def Filling (T : VectorType α) (initial : α) (item : Source α) (value : Option α) (n : ℕ)
    (items : List (Option α)) : Prop :=
  if item.isNull then Fresh T initial n items else items = List.replicate n value

def Item (T : VectorType α) (held : List ℕ) (h : Memory α) (item : Source α)
    (value : Option α) : Prop :=
  item.isNull = false → Readable T held h item [value]

theorem insertAt_spec (hl : Lawful T initial) (ho : Owned T held h v xs) {item : Source α}
    {value : Option α} (hr : Item T held h item value) (index n : ℕ) :
    Meets (Excuse T.toPlatform h (TooMany T (xs.length+n)))
      (Became T held h (Insertion xs index n (Filling T initial item value n)))
      (insertAt T h v item index n) := by
  have hcount : v.count = xs.length := ho.represents.1
  have hlive := ho.represents.2.1
  rw [insertAt, hcount]
  refine Meets.ite (fun hlt => ?_) (fun hix => ?_)
  · exact ⟨.refl held h, xs, .inl ⟨hlt, rfl, rfl⟩, ho⟩
  have hix : index ≤ xs.length := not_lt.mp hix
  refine (grow_spec hl ho hix n).bind ?_
  rintro ⟨_ | ⟨b, i⟩, w, h₁⟩ ⟨hp₁, hg⟩
  · exact ⟨hp₁, xs, .inr (.inr ⟨hix, rfl, rfl, hg.1⟩), hg.2⟩
  obtain ⟨hi, hw, hopen⟩ := hg
  obtain rfl : i = index := hi
  obtain rfl : w = ⟨some b, xs.length+n⟩ := hw
  refine Meets.bind (Q := fun u => Preserved held h₁ u ∧ ∃ ys, Filling T initial item value n ys ∧
    Owned T held u ⟨some b, xs.length+n⟩ (inserted xs i ys)) ?_ ?_
  · rw [VectorImpl.fill]
    refine Meets.ite (fun hnull => hopen.fill hlive ?_) (fun hnull => ?_)
    · intro gap r hgap hraw
      obtain ⟨ys, hfresh, hcons⟩ := doConstruct_eq hl (xs.take i) gap r hraw
      rw [hgap] at hfresh hcons
      rw [List.length_take_of_le hix] at hcons
      exact ⟨ys, by rwa [Filling, if_pos hnull], hfresh.1, hfresh.live, hcons⟩
    · have hone := hr (Bool.not_eq_true _ ▸ hnull)
      have hread : readSource h₁ item 1 = .ok [value] := hone.read hp₁
      rw [hread, ok_bind]
      refine hopen.fill hlive ?_
      intro gap r hgap hraw
      have hvalue := hone.1 value List.mem_cons_self
      have hsplat := hl.splat (xs.take i) gap r value hraw hvalue
      rw [hgap, List.length_take_of_le hix] at hsplat
      refine ⟨_, by rw [Filling, if_neg hnull], List.length_replicate, ?_, hsplat⟩
      intro c hc
      rwa [List.eq_of_mem_replicate hc]
  · rintro u ⟨hp₂, ys, hys, hou⟩
    exact ⟨hp₁.trans hp₂, _, .inr (.inl ⟨hix, rfl, ys, hys, rfl⟩), hou⟩

def Replacement (xs : List (Option α)) (index : ℕ) (P : List (Option α) → Prop) (ret : ℤ)
    (ys : List (Option α)) : Prop :=
  (xs.length ≤ index ∧ ret = badIndex ∧ ys = xs) ∨
  (index < xs.length ∧ ret = ssize index ∧ ∃ value, P [value] ∧ ys = xs.set index value)

theorem cut_at {index : ℕ} (hix : index < xs.length) :
    xs = xs.take index ++ ([xs[index]] ++ xs.drop (index+1)) := by
  rw [List.singleton_append, ← List.drop_eq_getElem_cons hix, List.take_append_drop]

theorem set_cut {index : ℕ} (hix : index < xs.length) (value : Option α) :
    xs.set index value = xs.take index ++ ([value] ++ xs.drop (index+1)) := by
  rw [List.singleton_append, List.set_eq_take_append_cons_drop, if_pos hix]

theorem refill_spec (hl : Lawful T initial) (hc : Counted (b::held) h) (hb : b ∉ held)
    {l r : List (Option α)} {old value : Option α} (hs : Stores T h b (l ++ ([old] ++ r)))
    (hold : Live T old) {prototype : Source α} (hr : Item T held h prototype value) :
    Meets E (fun t => Counted (b::held) t ∧ Preserved held h t ∧
      ∃ item, Filling T initial prototype value 1 [item] ∧ Live T item ∧
        Stores T t b (l ++ ([item] ++ r))) (refill T h b l.length prototype) := by
  obtain ⟨gone, hglen, hgraw, hdestroy⟩ := doDestroy_eq hl l [old] r (by simpa using hold)
  obtain ⟨slot, rfl⟩ := List.length_eq_one_iff.mp hglen
  refine (modify_spec (f := fun cells => doDestroy T cells l.length 1) hc hs hb hdestroy
    (by simp)).bind ?_
  rintro h₁ ⟨hc₁, hp₁, hs₁⟩
  refine Meets.ite (fun hnull => ?_) (fun hnull => ?_)
  · obtain ⟨items, hfresh, hcons⟩ := doConstruct_eq hl l [slot] r hgraw
    obtain ⟨item, rfl⟩ := List.length_eq_one_iff.mp hfresh.1
    refine (modify_spec (f := fun cells => doConstruct T cells l.length 1) hc₁ hs₁ hb hcons
      (by simp)).weaken ?_
    rintro t ⟨hct, hp, hst⟩
    refine ⟨hct, hp₁.trans hp, item, by rwa [Filling, if_pos hnull], ?_, hst⟩
    exact hfresh.live item List.mem_cons_self
  · have hone := hr (Bool.not_eq_true _ ▸ hnull)
    have hread : readSource h₁ prototype 1 = .ok [value] := hone.read hp₁
    refine (copyInto_spec hl (m := [slot]) hc₁ hb hs₁ hgraw hread rfl hone.1).weaken ?_
    rintro t ⟨hct, hp, hst⟩
    refine ⟨hct, hp₁.trans hp, value, by rw [Filling, if_neg hnull]; rfl, ?_, hst⟩
    exact hone.1 value List.mem_cons_self

theorem Readable.isSlot {source : Source α} (hr : Readable T held h source items) (hb : b ∉ held)
    (i : ℕ) : source.isSlot b i = false := by
  cases source with
  | null => rfl
  | outside ys => rfl
  | stored c j =>
    have hne : b ≠ c := fun he => hb (he ▸ hr.2.1)
    simp [Source.isSlot, hne]

theorem replaceAt_spec (hl : Lawful T initial) (ho : Owned T held h v xs) {prototype : Source α}
    {value : Option α} (hr : Item T held h prototype value) (index : ℕ) :
    Meets (Excuse T.toPlatform h False)
      (Became T held h (fun _ => Replacement xs index (Filling T initial prototype value 1)))
      (replaceAt T h v prototype index) := by
  have hcount : v.count = xs.length := ho.represents.1
  rw [replaceAt, hcount]
  refine Meets.ite (fun hle => ?_) (fun hix => ?_)
  · exact ⟨.refl held h, xs, .inl ⟨hle, rfl, rfl⟩, ho⟩
  have hix : index < xs.length := not_le.mp hix
  obtain ⟨b₀, hv₀⟩ : ∃ b, v.storage = some b := by
    cases hv : v.storage with
    | some b => exact ⟨b, rfl⟩
    | none =>
      have hrep := ho.represents.2.2
      rw [hv] at hrep
      simp [hrep] at hix
  have hroom : index < room h v := by
    obtain ⟨spare, -, -, -, hlen⟩ := ho.room_eq hv₀
    omega
  rw [editItemLocation, capacity_eq hl ho.represents, ok_bind, if_pos hroom]
  -- the vector goes on alone, and the slot is emptied and filled there
  refine Meets.bind (Q := fun r => ∃ b, r.1 = some (b, index) ∧ r.2.1.storage = some b ∧
    b ∉ held ∧ Owned T held r.2.2 r.2.1 xs ∧ Preserved held h r.2.2) ?_ ?_
  · refine (editArrayImpl_spec hl ho).bind ?_
    rintro ⟨w, h₁⟩ ⟨ho₁, hp₁, hsole, -, hsome⟩
    obtain ⟨b, hw⟩ : ∃ b, w.storage = some b :=
      Option.isSome_iff_exists.mp (hsome.trans (by rw [hv₀]; rfl))
    exact ⟨b, by rw [hw]; rfl, hw, hsole b hw, ho₁, hp₁⟩
  rintro ⟨place, w, h₁⟩ ⟨b, hplace, hw, hb, ho₁, hp₁⟩
  obtain rfl : place = some (b, index) := hplace
  obtain ⟨spare, hraw, hs₁, hfits, -⟩ := ho₁.room_eq hw
  have hc₁ : Counted (b::held) h₁ := by
    have hown := ho₁.counted
    rwa [hw] at hown
  have hlive := ho₁.represents.2.1
  have hr₁ : Item T held h₁ prototype value := by
    intro hnull
    obtain ⟨hvalue, hread⟩ := hr hnull
    refine ⟨hvalue, ?_⟩
    cases prototype with
    | null => exact hread
    | outside ys => exact hread
    | stored c i =>
      obtain ⟨hcm, x, hx, hslice⟩ := hread
      exact ⟨hcm, x, (hp₁.kept c hcm).trans hx, hslice⟩
  have hslot : prototype.isSlot b index = false := by
    cases hnull : prototype.isNull with
    | true =>
      cases prototype with
      | null => rfl
      | outside ys => cases hnull
      | stored c i => cases hnull
    | false => exact (hr₁ hnull).isSlot hb index
  simp only [hslot, Bool.false_eq_true, if_false]
  have hs₁' : Stores T h₁ b (xs.take index ++ ([xs[index]] ++ (xs.drop (index+1) ++ spare))) := by
    rw [← List.append_assoc [xs[index]], ← List.append_assoc, ← cut_at hix]
    exact hs₁
  have hrefill := refill_spec (E := Excuse T.toPlatform h False) hl hc₁ hb hs₁'
    (hlive _ (List.getElem_mem hix)) hr₁
  rw [List.length_take_of_le hix.le] at hrefill
  refine hrefill.bind ?_
  rintro t ⟨hct, hp, item, hfill, hitem, hst⟩
  have hst' : Stores T t b (xs.set index item ++ spare) := by
    rwa [set_cut hix, List.append_assoc, List.append_assoc]
  refine ⟨hp₁.trans hp, _, .inr ⟨hix, rfl, item, hfill, rfl⟩, ?_⟩
  have hself : w = ⟨some b, xs.length⟩ := by
    have hwc := ho₁.represents.1
    cases w
    cases hw
    cases hwc
    rfl
  simp only [hself]
  refine owned_of_stores hct ?_ hst' ?_ hraw (List.length_set ..).symm
  · intro c hm
    rcases List.mem_or_eq_of_mem_set hm with hm | rfl
    · exact hlive c hm
    · exact hitem
  · rwa [List.length_append, List.length_set, ← List.length_append]

def Removal (xs : List (Option α)) (index amount : ℕ) (refused : Prop) (ret : ℤ)
    (ys : List (Option α)) : Prop :=
  (xs.length < index+amount ∧ ret = badValue ∧ ys = xs) ∨
  (index+amount ≤ xs.length ∧ ret = ssize index ∧
    (ys = without xs index amount ∨ refused ∧ ys = xs))

theorem removeItemsAt_spec (hl : Lawful T initial) (ho : Owned T held h v xs) (index amount : ℕ)
    (hwrap : index+amount < 2^32) :
    Meets (Excuse T.toPlatform h False) (Became T held h (Removal xs index amount))
      (removeItemsAt T h v index amount) := by
  have hcount : v.count = xs.length := ho.represents.1
  rw [removeItemsAt, add32_eq hwrap, hcount]
  refine Meets.ite (fun hlt => ?_) (fun hle => ?_)
  · exact ⟨.refl held h, xs, .inl ⟨hlt, rfl, rfl⟩, ho⟩
  have hle : index+amount ≤ xs.length := not_lt.mp hle
  refine (shrink_spec hl ho _ _ hle).bind ?_
  rintro ⟨w, h₁⟩ ⟨hp, hout | ⟨href, hout⟩⟩
  · exact ⟨hp, _, .inr ⟨hle, rfl, .inl rfl⟩, hout⟩
  · exact ⟨hp, _, .inr ⟨hle, rfl, .inr ⟨href, rfl⟩⟩, hout⟩

/-- What `clear` leaves: nothing, or everything when no smaller buffer can be had. -/
theorem clear_spec (hl : Lawful T initial) (ho : Owned T held h v xs) :
    Meets (Excuse T.toPlatform h False)
      (fun r => Preserved held h r.2 ∧ (Owned T held r.2 r.1 [] ∨
        Refused T.refuse h r.2 ∧ Owned T held r.2 r.1 xs))
      (clear T h v) := by
  have hcount : v.count = xs.length := ho.represents.1
  have hshrink := shrink_spec hl ho 0 xs.length (by omega)
  rw [without, List.take_zero, List.nil_append, Nat.zero_add, List.drop_length] at hshrink
  rwa [clear, hcount]

theorem without_last (xs : List (Option α)) : without xs (xs.length-1) 1 = xs.dropLast := by
  rw [without, List.dropLast_eq_take, List.drop_eq_nil_of_le (by omega), List.append_nil]

theorem pop_spec (hl : Lawful T initial) (ho : Owned T held h v xs) :
    Meets (Excuse T.toPlatform h False)
      (fun r => Preserved held h r.2 ∧ (Owned T held r.2 r.1 xs.dropLast ∨
        Refused T.refuse h r.2 ∧ Owned T held r.2 r.1 xs))
      (pop T h v) := by
  have hcount : v.count = xs.length := ho.represents.1
  have hsmall := ho.small hl.itemSize_pos
  rw [pop, hcount]
  refine Meets.ite (fun hzero => ?_) (fun hpos => ?_)
  · obtain rfl := List.length_eq_zero_iff.mp hzero
    exact ⟨.refl held h, .inl ho⟩
  refine (removeItemsAt_spec hl ho (xs.length-1) 1 (by omega)).bind ?_
  rintro ⟨ret, w, t⟩ ⟨hp, ys, hys, hown⟩
  rw [Removal, without_last] at hys
  refine ⟨hp, ?_⟩
  rcases hys with ⟨hlt, -⟩ | ⟨-, -, rfl | ⟨href, rfl⟩⟩
  · omega
  · exact .inl hown
  · exact .inr ⟨href, hown⟩

theorem finishVector_spec (hl : Lawful T initial) (ho : Owned T held h v xs) :
    Meets E (fun r => Preserved held h r.2 ∧ r.1 = ⟨none, 0⟩ ∧ Owned T held r.2 r.1 [])
      (finishVector T h v) := by
  refine (releaseStorage_spec hl ho).bind ?_
  rintro t ⟨hc, hp⟩
  exact ⟨hp, rfl, hc, rfl, by simp, rfl⟩

def Reservation (xs : List (Option α)) (n : ℕ) (refused : Prop) (ret : ℤ)
    (ys : List (Option α)) : Prop :=
  ys = xs ∧ (n ≤ xs.length ∨ ret = ssize n ∨ ret = noMemory ∧ refused)

theorem setCapacity_spec (hl : Lawful T initial) (ho : Owned T held h v xs) (n : ℕ) :
    Meets (Excuse T.toPlatform h (¬ Fits T n))
      (Became T held h (Reservation xs n)) (setCapacity T h v n) := by
  have hcount : v.count = xs.length := ho.represents.1
  rw [setCapacity, hcount]
  refine Meets.ite (fun hle => ?_) (fun hlt => ?_)
  · rw [capacity_eq hl ho.represents, ok_bind]
    exact ⟨.refl held h, xs, ⟨rfl, .inl hle⟩, ho⟩
  have hlt : xs.length < n := not_le.mp hlt
  have hbytes : sizeMax < n*T.itemSize → ¬ Fits T n := by
    intro hlt hf
    have hbound : n*T.itemSize < sizeMax-T.header := hf
    omega
  apply Meets.bind (fatalIf_spec (c := sizeMax < n*T.itemSize) hbytes)
  intro _ _
  refine (allocSlots_spec hl ho.counted n).bind ?_
  rintro ⟨_ | b, h₁⟩ hg
  · obtain ⟨-, href, hc₁, hp₁⟩ := hg
    refine ⟨hp₁.mono (fun a ha => List.mem_append_right _ ha), xs,
      ⟨rfl, .inr (.inr ⟨rfl, href⟩)⟩, ho.preserved hc₁ ?_⟩
    exact hp₁.mono (fun a ha => List.mem_append_left _ ha)
  obtain ⟨hb, hfits, hs₁, hc₁, hp₁⟩ := hg
  have hr₁ : Represents T h₁ v xs :=
    ho.represents.preserved (hp₁.mono (fun a ha => List.mem_append_left _ ha))
  have hcut : List.replicate n (none : Option α) = [] ++ (List.replicate xs.length none ++
      List.replicate (n-xs.length) none) := by
    rw [List.nil_append, List.replicate_append_replicate]
    congr 1
    omega
  rw [hcut] at hs₁
  have hread : readSource h₁ (arrayImpl v) xs.length = .ok xs := by
    have hall := hr₁.read (i := 0) (n := xs.length) (by omega)
    rwa [List.drop_zero, List.take_length] at hall
  have hcopy := copyInto_spec (E := Excuse T.toPlatform h (¬ Fits T n)) hl hc₁ hb hs₁
    (raw_replicate xs.length) (by rwa [List.length_replicate]) (by rw [List.length_replicate])
    hr₁.2.1
  rw [List.length_replicate, List.length_nil] at hcopy
  refine hcopy.bind ?_
  rintro h₂ ⟨hc₂, hp₂, hs₂⟩
  have ho₂ : Owned T (b::held) h₂ v xs :=
    ⟨hc₂.perm List.perm_middle.symm,
      hr₁.preserved (hp₂.mono (fun a ha => List.mem_append_left _ ha))⟩
  refine (releaseStorage_spec hl ho₂).bind ?_
  rintro h₃ ⟨hc₃, hp₃⟩
  refine ⟨?_, xs, ⟨rfl, .inr (.inl rfl)⟩, ?_⟩
  · exact ((hp₁.trans hp₂).mono (fun a ha => List.mem_append_right _ ha)).trans
      (hp₃.mono (fun a ha => List.mem_cons_of_mem b ha))
  · refine owned_of_stores hc₃ hr₁.2.1 (hs₂.preserved List.mem_cons_self hp₃) ?_
      (raw_replicate _) rfl
    refine hfits.mono ?_
    rw [List.length_append, List.length_replicate]
    omega

def Resizing (T : VectorType α) (initial : α) (xs : List (Option α)) (n : ℕ) (refused : Prop)
    (ret : ℤ) (ys : List (Option α)) : Prop :=
  ∃ result : ℤ, ret = (if result < 0 then result else ssize n) ∧
    (xs.length < n ∧ Insertion xs xs.length (n-xs.length) (Fresh T initial (n-xs.length))
      refused result ys ∨
    n < xs.length ∧ Removal xs n (xs.length-n) refused result ys ∨
    n = xs.length ∧ result = noError ∧ ys = xs)

theorem resize_spec (hl : Lawful T initial) (ho : Owned T held h v xs) (n : ℕ) :
    Meets (Excuse T.toPlatform h (TooMany T n)) (Became T held h (Resizing T initial xs n))
      (resize T h v n) := by
  have hcount : v.count = xs.length := ho.represents.1
  have hstep : Meets (Excuse T.toPlatform h (TooMany T n))
      (Became T held h (fun refused ret ys => Resizing T initial xs n refused
        (if ret < 0 then ret else ssize n) ys)) (resizeStep T h v n) := by
    rw [resizeStep, hcount]
    refine Meets.ite (fun hlt => ?_) (fun hge => Meets.ite (fun hlt => ?_) (fun hle => ?_))
    · have hnull : Item T held h .null none := fun hn => by cases hn
      have hins := insertAt_spec hl ho hnull xs.length (n-xs.length)
      rw [show xs.length+(n-xs.length) = n by omega] at hins
      refine hins.weaken ?_
      rintro r ⟨hp, ys, hys, hown⟩
      exact ⟨hp, ys, ⟨r.1, rfl, .inl ⟨hlt, hys⟩⟩, hown⟩
    · have hsmall := ho.small hl.itemSize_pos
      have hrem := removeItemsAt_spec hl ho n (xs.length-n) (by omega)
      refine hrem.mono (Excuse.mono _ False.elim) ?_
      rintro r ⟨hp, ys, hys, hown⟩
      exact ⟨hp, ys, ⟨r.1, rfl, .inr (.inl ⟨hlt, hys⟩)⟩, hown⟩
    · exact ⟨.refl held h, xs, ⟨noError, rfl, .inr (.inr ⟨by omega, rfl, rfl⟩)⟩, ho⟩
  refine hstep.bind ?_
  rintro ⟨ret, w, t⟩ hb
  exact hb

theorem copyOf_spec {rhs : VectorImpl} {ys : List (Option α)} (hc : Counted held h)
    (hr : Represents T h rhs ys) (hh : ∀ b, rhs.storage = some b → b ∈ held) :
    Meets E (fun r => Preserved held h r.2 ∧ r.1 = rhs ∧ Owned T held r.2 r.1 ys)
      (copyOf h rhs) := by
  cases hv : rhs.storage with
  | none =>
    simp only [copyOf, hv]
    refine ⟨.refl held h, rfl, ?_, hr⟩
    rwa [hv]
  | some b =>
    simp only [copyOf, hv]
    refine (acquire_spec hc (hh b hv)).bind ?_
    rintro t ⟨hct, hp⟩
    refine ⟨hp, rfl, by rwa [hv], hr.preserved (hp.mono ?_)⟩
    intro a ha
    rw [hv] at ha
    obtain rfl : a = b := by simpa using ha
    exact hh a hv

theorem assign_spec (hl : Lawful T initial) (ho : Owned T held h v xs) {rhs : VectorImpl}
    {ys : List (Option α)} (hr : Represents T h rhs ys)
    (hh : ∀ b, rhs.storage = some b → b ∈ held) :
    Meets E (fun r => Preserved held h r.2 ∧ Owned T held r.2 r.1 ys) (assign T h v rhs) := by
  refine (releaseStorage_spec hl ho).bind ?_
  rintro h₁ ⟨hc₁, hp₁⟩
  refine Meets.ite (fun hzero => ?_) (fun hpos => ?_)
  · obtain rfl : ys = [] := List.length_eq_zero_iff.mp (hr.1.symm.trans hzero)
    exact ⟨hp₁, hc₁, rfl, by simp, rfl⟩
  have hr₁ : Represents T h₁ rhs ys := by
    refine hr.preserved (hp₁.mono ?_)
    intro a ha
    exact hh a (Option.mem_toList.mp ha)
  cases hv : rhs.storage with
  | none =>
    have hnil := hr.2.2
    rw [hv] at hnil
    exact absurd (by rw [hr.1, hnil]; rfl) hpos
  | some b =>
    refine (acquire_spec hc₁ (hh b hv)).bind ?_
    rintro t ⟨hct, hp⟩
    have hself : (⟨some b, rhs.count⟩ : VectorImpl) = rhs := by rw [← hv]
    refine ⟨hp₁.trans hp, ?_⟩
    simp only [hself]
    refine ⟨by rwa [hv], hr₁.preserved (hp.mono ?_)⟩
    intro a ha
    exact hh a (Option.mem_toList.mp ha)

end Wingray.VectorImpl
