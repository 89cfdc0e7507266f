import Wingray.VectorImpl

/-!
# What a vector contains

A vector stands for the list of its items; the rest of its buffer is raw. The
operations work on a vector among others that may share its buffer: `held` names
the buffers that the others hold, once for each of them.
-/

set_option autoImplicit false

namespace Wingray.VectorImpl
open CountedStore SharedBuffer OutcomeLogic

variable {α : Type} (T : VectorType α)

/-- An item of a type without a constructor is there as soon as its slot is. -/
def Live (c : Option α) : Prop := T.trivialCtor = true ∨ c.isSome = true

/-- An item of a type without a destructor may be written over. -/
def Raw (c : Option α) : Prop := T.trivialDtor = true ∨ c = none

/-- What the code relies on in the virtual functions of an instance. -/
structure Lawful (initial : α) : Prop where
  itemSize_pos : 0 < T.itemSize
  small : kMinVectorCapacity*T.itemSize < sizeMax-T.header
  construct : ∀ l m r, (∀ c ∈ m, Raw T c) → T.doConstruct (l++(m++r)) l.length m.length =
    some (l ++ (List.replicate m.length (some initial) ++ r))
  destroy : ∀ l m r, (∀ c ∈ m, Live T c) → T.doDestroy (l++(m++r)) l.length m.length =
    some (l ++ (List.replicate m.length none ++ r))
  copy : ∀ l m r items, items.length = m.length → (∀ c ∈ m, Raw T c) →
    (∀ c ∈ items, Live T c) → T.doCopy (l++(m++r)) l.length items = some (l ++ (items ++ r))
  splat : ∀ l m r item, (∀ c ∈ m, Raw T c) → Live T item →
    T.doSplat (l++(m++r)) l.length item m.length =
      some (l ++ (List.replicate m.length item ++ r))
  moveForward : ∀ l m gap r, (∀ c ∈ m, Live T c) → (∀ c ∈ gap, Raw T c) →
    ∃ vacated, vacated.length = gap.length ∧ (∀ c ∈ vacated, Raw T c) ∧
      T.doMoveForward (l++(m++(gap++r))) (l.length+gap.length) l.length m.length =
        some (l ++ (vacated ++ (m ++ r)))
  moveBackward : ∀ l gap m r, (∀ c ∈ m, Live T c) → (∀ c ∈ gap, Raw T c) →
    ∃ vacated, vacated.length = gap.length ∧ (∀ c ∈ vacated, Raw T c) ∧
      T.doMoveBackward (l++(gap++(m++r))) l.length (l.length+gap.length) m.length =
        some (l ++ (m ++ (vacated ++ r)))

def Stores (h : Memory α) (b : ℕ) (cells : List (Option α)) : Prop :=
  content h b = some ⟨cells.length*T.itemSize, cells⟩

def Fits (n : ℕ) : Prop := n*T.itemSize < sizeMax-T.header

def Represents (h : Memory α) (v : VectorImpl) (xs : List (Option α)) : Prop :=
  v.count = xs.length ∧ (∀ c ∈ xs, Live T c) ∧
  match v.storage with
  | none => xs = []
  | some b => ∃ spare, Stores T h b (xs++spare) ∧ Fits T (xs++spare).length ∧
      ∀ c ∈ spare, Raw T c

structure Owned (held : List ℕ) (h : Memory α) (v : VectorImpl) (xs : List (Option α)) :
    Prop where
  counted : Counted (v.storage.toList++held) h
  represents : Represents T h v xs

def room (h : Memory α) (v : VectorImpl) : ℕ :=
  match v.storage with
  | none => 0
  | some b => ((content h b).map (fun x => x.data.length)).getD 0

variable {T} {initial : α} {held : List ℕ} {h t : Memory α} {v : VectorImpl}
  {xs items : List (Option α)} {b n : ℕ} {E : Stop → Prop}

theorem Represents.preserved (hr : Represents T h v xs)
    (hp : Preserved v.storage.toList h t) : Represents T t v xs := by
  obtain ⟨hcount, hlive, hs⟩ := hr
  refine ⟨hcount, hlive, ?_⟩
  cases hv : v.storage with
  | none => rwa [hv] at hs
  | some b =>
    rw [hv] at hs hp
    obtain ⟨spare, hstores, hfits, hraw⟩ := hs
    exact ⟨spare, (hp.kept b List.mem_cons_self).trans hstores, hfits, hraw⟩

theorem Owned.preserved (ho : Owned T held h v xs) (hc : Counted (v.storage.toList++held) t)
    (hp : Preserved v.storage.toList h t) : Owned T held t v xs :=
  ⟨hc, ho.represents.preserved hp⟩

theorem room_eq (hv : v.storage = some b) (hs : Stores T h b xs) : room h v = xs.length := by
  have hx : content h b = some _ := hs
  simp only [room, hv, hx, Option.map_some, Option.getD_some]

theorem capacity_eq (hl : Lawful T initial) (hr : Represents T h v xs) :
    capacity T h v = .ok (room h v) := by
  obtain ⟨-, -, hs⟩ := hr
  cases hv : v.storage with
  | none => simp [capacity, room, hv]; rfl
  | some b =>
    rw [hv] at hs
    obtain ⟨spare, hstores, -, -⟩ := hs
    obtain ⟨r, hcell⟩ := content_cell hstores
    rw [room_eq hv hstores]
    simp only [capacity, hv, cellAt_some hcell, ok_bind]
    rw [Nat.mul_div_cancel _ hl.itemSize_pos]
    rfl

theorem slice_eq (xs : List (Option α)) {i n : ℕ} (hi : i+n ≤ xs.length) :
    slice xs i n = some ((xs.drop i).take n) :=
  if_pos hi

theorem Represents.read (hr : Represents T h v xs) {i n : ℕ} (hi : i+n ≤ xs.length) :
    readSource h (itemAt v i) n = .ok ((xs.drop i).take n) := by
  obtain ⟨-, -, hs⟩ := hr
  cases hv : v.storage with
  | none =>
    rw [hv] at hs
    obtain rfl : xs = [] := hs
    obtain rfl : n = 0 := by simpa using (Nat.le_add_left n i).trans hi
    simp [itemAt, hv, readSource]
  | some b =>
    rw [hv] at hs
    obtain ⟨spare, hstores, -, -⟩ := hs
    obtain ⟨r, hcell⟩ := content_cell hstores
    have hlen : i+n ≤ (xs++spare).length := by
      rw [List.length_append]
      omega
    simp only [itemAt, hv, readSource, cellAt_some hcell, ok_bind, slice_eq _ hlen, orFault]
    rw [List.drop_append_of_le_length (by omega), List.take_append_of_le_length]
    rw [List.length_drop]
    omega

theorem modify_spec {f : List (Option α) → Option (List (Option α))} {cells : List (Option α)}
    (hc : Counted (b::held) h) (hs : Stores T h b xs) (hb : b ∉ held) (hf : f xs = some cells)
    (hlen : cells.length = xs.length) :
    Meets E (fun t => Counted (b::held) t ∧ Preserved held h t ∧ Stores T t b cells)
      (modify h b f) := by
  obtain ⟨r, hcell⟩ := content_cell hs
  simp only [modify, cellAt_some hcell, ok_bind, hf, orFault]
  refine ⟨hc.write hcell rfl, preserved_put hb, ?_⟩
  simp only [Stores, content, put_same, Option.map_some, hlen]

theorem doCopy_eq (hl : Lawful T initial) (l m r : List (Option α))
    (hlen : items.length = m.length) (hm : ∀ c ∈ m, Raw T c) (hi : ∀ c ∈ items, Live T c) :
    doCopy T (l++(m++r)) l.length items = some (l ++ (items ++ r)) := by
  rw [doCopy]
  split
  case isTrue =>
    rw [memcpy, if_pos (by simp only [List.length_append]; omega), List.take_left', hlen]
    · rw [← List.append_assoc l m r, List.drop_left' (by rw [List.length_append])]
      simp
    · rfl
  case isFalse => exact hl.copy l m r items hlen hm hi

theorem doDestroy_eq (hl : Lawful T initial) (l m r : List (Option α))
    (hm : ∀ c ∈ m, Live T c) :
    ∃ gone, gone.length = m.length ∧ (∀ c ∈ gone, Raw T c) ∧
      doDestroy T (l++(m++r)) l.length m.length = some (l ++ (gone ++ r)) := by
  rw [doDestroy]
  split
  case isTrue ht => exact ⟨m, rfl, fun c _ => .inl ht, rfl⟩
  case isFalse =>
    refine ⟨List.replicate m.length none, by simp, ?_, hl.destroy l m r hm⟩
    exact fun c hc => .inr (List.eq_of_mem_replicate hc)

theorem copyInto_spec (hl : Lawful T initial) {l m r : List (Option α)} {source : Source α}
    (hc : Counted (b::held) h) (hb : b ∉ held) (hs : Stores T h b (l++(m++r)))
    (hm : ∀ c ∈ m, Raw T c) (hread : readSource h source m.length = .ok items)
    (hlen : items.length = m.length) (hi : ∀ c ∈ items, Live T c) :
    Meets E (fun t => Counted (b::held) t ∧ Preserved held h t ∧
      Stores T t b (l++(items++r))) (copyInto T h b l.length source m.length) := by
  rw [copyInto, hread, ok_bind]
  exact modify_spec hc hs hb (doCopy_eq hl l m r hlen hm hi) (by simp [hlen])

theorem releaseStorage_spec (hl : Lawful T initial) (ho : Owned T held h v xs) :
    Meets E (fun t => Counted held t ∧ Preserved held h t) (releaseStorage T h v) := by
  obtain ⟨hc, hcount, hlive, hs⟩ := ho
  cases hv : v.storage with
  | none =>
    rw [hv] at hc
    simp only [releaseStorage, hv]
    exact ⟨hc, .refl held h⟩
  | some b =>
    rw [hv] at hc hs
    obtain ⟨spare, hstores, -, -⟩ := hs
    obtain ⟨r, hcell⟩ := content_cell hstores
    simp only [releaseStorage, hv, release, cellAt_some hcell, ok_bind, if_true]
    by_cases h1 : r = 1
    · have hb := (hc.only hcell).mp h1
      obtain ⟨gone, -, -, hgone⟩ := doDestroy_eq hl [] xs spare hlive
      rw [List.nil_append, List.length_nil, ← hcount] at hgone
      simp only [h1, if_true, pure_bind, modify, cellAt_some (put_same _ _ _), ok_bind, hgone,
        orFault, put_put, dealloc, ne_eq, not_true_eq_false, if_false, erase_put]
      exact ⟨hc.erase hb, preserved_erase hb⟩
    · simp only [h1, if_false, pure_bind]
      exact ⟨hc.drop hcell h1 rfl, preserved_recount hcell rfl⟩

theorem Stores.preserved (hs : Stores T h b xs) (hb : b ∈ held) (hp : Preserved held h t) :
    Stores T t b xs :=
  (hp.kept b hb).trans hs

theorem allocSlots_spec (hl : Lawful T initial) (hc : Counted held h) (cap : ℕ) :
    Meets (Excuse T.toPlatform h (¬ Fits T cap))
      (fun r => match r.1 with
        | none => T.refuse h.next = true ∧ Refused T.refuse h r.2 ∧ Counted held r.2 ∧
            Preserved held h r.2
        | some n => n ∉ held ∧ Fits T cap ∧ Stores T r.2 n (List.replicate cap none) ∧
            Counted (n::held) r.2 ∧ Preserved held h r.2)
      (SharedBuffer.alloc T.toPlatform h (cap*T.itemSize)) := by
  rw [SharedBuffer.alloc]
  apply Meets.bind (fatalIf_spec (c := sizeMax-T.header ≤ cap*T.itemSize) not_lt.mpr)
  intro _ hs
  have ha := alloc_spec (y := T.toPlatform) (h := h) hc (cap*T.itemSize)
  rw [SharedBuffer.alloc, fatalIf, if_neg hs, ok_bind, meets_pure] at ha
  rw [meets_pure]
  revert ha
  generalize CountedStore.alloc T.refuse h (raw T.toPlatform (cap*T.itemSize)) = r
  obtain ⟨_ | n, t⟩ := r
  · exact fun hg => ⟨hg.2 rfl, hg.1⟩
  · rintro ⟨⟨hn, hraw, hct, hp⟩, -⟩
    refine ⟨hn, not_le.mp hs, ?_, hct, hp⟩
    rw [Stores, hraw, raw, Nat.mul_div_cancel _ hl.itemSize_pos, List.length_replicate]

theorem copyWhen_spec (hl : Lawful T initial) (hr : Represents T h v xs) {l m r : List (Option α)}
    (hc : Counted (b::held) h) (hb : b ∉ held) (hs : Stores T h b (l++(m++r)))
    (hm : ∀ c ∈ m, Raw T c) {i : ℕ} (hi : i+m.length ≤ xs.length) :
    Meets E (fun t => Counted (b::held) t ∧ Preserved held h t ∧
      Stores T t b (l++((xs.drop i).take m.length++r)))
      (copyWhen T h b l.length (itemAt v i) m.length) := by
  rw [copyWhen]
  refine Meets.ite (fun _ => ?_) (fun h0 => ?_)
  · refine copyInto_spec hl hc hb hs hm (hr.read hi) ?_ ?_
    · rw [List.length_take, List.length_drop]
      omega
    · exact fun c hx => hr.2.1 c (List.mem_of_mem_drop (List.mem_of_mem_take hx))
  · obtain rfl : m = [] := List.length_eq_zero_iff.mp (not_not.mp h0)
    exact ⟨hc, .refl held h, by simpa using hs⟩

theorem raw_replicate (n : ℕ) : ∀ c ∈ List.replicate n (none : Option α), Raw T c :=
  fun _ hc => .inr (List.eq_of_mem_replicate hc)

theorem relocate_spec (hl : Lawful T initial) (ho : Owned T held h v xs)
    (cap : ℕ) {index target from' n : ℕ} (hit : index ≤ target) (hix : index ≤ xs.length)
    (hn : from'+n = xs.length) (hcap : target+n ≤ cap) :
    Meets (Excuse T.toPlatform h (¬ Fits T cap))
      (fun r => match r.1 with
        | none => Refused T.refuse h r.2 ∧ Owned T held r.2 v xs ∧ Preserved held h r.2
        | some b => b ∉ held ∧ Counted (b::held) r.2 ∧ Preserved held h r.2 ∧ Fits T cap ∧
            Stores T r.2 b (xs.take index ++ (List.replicate (target-index) none ++
              (xs.drop from' ++ List.replicate (cap-target-n) none))))
      (relocate T h v (cap*T.itemSize) index target from' n) := by
  rw [relocate]
  refine (allocSlots_spec hl ho.counted cap).bind ?_
  rintro ⟨_ | b, h₁⟩ hg
  · obtain ⟨-, href, hc₁, hp₁⟩ := hg
    refine ⟨href, ho.preserved hc₁ ?_, ?_⟩
    · exact hp₁.mono (fun a ha => List.mem_append_left _ ha)
    · exact hp₁.mono (fun a ha => List.mem_append_right _ ha)
  obtain ⟨hb, hfits, hs₁, hc₁, hp₁⟩ := hg
  have hr₁ : Represents T h₁ v xs :=
    ho.represents.preserved (hp₁.mono (fun a ha => List.mem_append_left _ ha))
  -- the empty buffer, cut where the items go
  have hcut : List.replicate cap (none : Option α) = [] ++ (List.replicate index none ++
      (List.replicate (target-index) none ++ (List.replicate n none ++
        List.replicate (cap-target-n) none))) := by
    simp only [List.replicate_append_replicate, List.nil_append]
    congr 1
    omega
  rw [hcut] at hs₁
  have hfront := copyWhen_spec (E := Excuse T.toPlatform h (¬ Fits T cap)) hl hr₁ hc₁ hb hs₁
    (raw_replicate index) (i := 0) (by simpa using hix)
  simp only [List.length_replicate, List.length_nil] at hfront
  refine hfront.bind ?_
  rintro h₂ ⟨hc₂, hp₂, hs₂⟩
  have hr₂ : Represents T h₂ v xs :=
    hr₁.preserved (hp₂.mono (fun a ha => List.mem_append_left _ ha))
  rw [List.drop_zero, List.nil_append, ← List.append_assoc] at hs₂
  have hback := copyWhen_spec (E := Excuse T.toPlatform h (¬ Fits T cap)) hl hr₂ hc₂ hb hs₂
    (raw_replicate n) (i := from') (by simpa using hn.le)
  have hlen : (xs.take index ++ List.replicate (target-index) none).length = target := by
    rw [List.length_append, List.length_take, List.length_replicate]
    omega
  rw [hlen] at hback
  simp only [List.length_replicate] at hback
  refine hback.bind ?_
  rintro h₃ ⟨hc₃, hp₃, hs₃⟩
  have ho₃ : Owned T (b::held) h₃ v xs := by
    refine ⟨hc₃.perm (List.perm_middle.symm), ?_⟩
    exact hr₂.preserved (hp₃.mono (fun a ha => List.mem_append_left _ ha))
  refine (releaseStorage_spec hl ho₃).bind ?_
  rintro h₄ ⟨hc₄, hp₄⟩
  refine ⟨fun hm => hb (List.mem_append_right _ hm), hc₄, ?_, hfits, ?_⟩
  · have hp := (hp₁.trans hp₂).trans hp₃
    exact (hp.mono (fun a ha => List.mem_append_right _ ha)).trans
      (hp₄.mono (fun a ha => List.mem_cons_of_mem b ha))
  · have hs₄ := hs₃.preserved (List.mem_cons_self) hp₄
    have htail : (xs.drop from').take n = xs.drop from' :=
      List.take_of_length_le (by rw [List.length_drop]; omega)
    rwa [htail, List.append_assoc] at hs₄

def Sole (held : List ℕ) (v : VectorImpl) : Prop := ∀ b, v.storage = some b → b ∉ held

/-- A vector that shares its buffer goes on in a copy with as much room. -/
theorem editArrayImpl_spec (hl : Lawful T initial) (ho : Owned T held h v xs) :
    Meets (Excuse T.toPlatform h False)
      (fun r => Owned T held r.2 r.1 xs ∧ Preserved held h r.2 ∧ Sole held r.1 ∧
        room r.2 r.1 = room h v ∧ r.1.storage.isSome = v.storage.isSome)
      (editArrayImpl T h v) := by
  obtain ⟨hc, hcount, hlive, hs⟩ := ho
  have ho : Owned T held h v xs := ⟨hc, hcount, hlive, hs⟩
  cases hv : v.storage with
  | none =>
    simp only [editArrayImpl, hv]
    refine ⟨ho, .refl held h, ?_, rfl, by rw [hv]⟩
    intro b hb
    rw [hv] at hb
    cases hb
  | some b =>
    rw [hv] at hc hs
    change Counted (b::held) h at hc
    obtain ⟨spare, hstores, hfits, hraw⟩ := hs
    obtain ⟨r, hcell⟩ := content_cell hstores
    simp only [editArrayImpl, hv]
    refine (attemptEdit_spec (E := Excuse T.toPlatform h False) hc).bind ?_
    rintro editable rfl
    by_cases hb : b ∈ held
    swap
    · rw [if_neg hb]
      refine ⟨ho, .refl held h, ?_, rfl, by rw [hv]⟩
      intro a ha
      obtain rfl : b = a := Option.some.inj (hv.symm.trans ha)
      exact hb
    simp only [hb, if_true, Option.isSome_none, Bool.false_eq_true, if_false, cellAt_some hcell,
      ok_bind]
    have hnofit : ¬ Fits T (xs++spare).length → False := fun hn => hn hfits
    refine ((allocSlots_spec hl hc (xs++spare).length).mono
      (Excuse.mono T.toPlatform hnofit) (fun _ hg => hg)).bind ?_
    rintro ⟨_ | n, h₁⟩ hg
    · exact ⟨le_rfl, hg.1⟩
    obtain ⟨hn, -, hs₁, hc₁, hp₁⟩ := hg
    have hr₁ : Represents T h₁ v xs := by
      refine ho.represents.preserved (hp₁.mono ?_)
      rw [hv]
      exact fun a ha => List.mem_append_left _ ha
    have hcut : List.replicate (xs++spare).length (none : Option α) = [] ++
        (List.replicate xs.length none ++ List.replicate spare.length none) := by
      rw [List.nil_append, List.replicate_append_replicate, List.length_append]
    rw [hcut] at hs₁
    have hread : readSource h₁ (.stored b 0) xs.length = .ok xs := by
      have hall := hr₁.read (i := 0) (n := xs.length) (by omega)
      rwa [itemAt, hv, List.drop_zero, List.take_length] at hall
    have hcopy := copyInto_spec (E := Excuse T.toPlatform h False) hl hc₁ hn hs₁
      (raw_replicate xs.length) (by rwa [List.length_replicate]) (by rw [List.length_replicate])
      hlive
    rw [List.length_replicate, List.length_nil, ← hcount] at hcopy
    refine hcopy.bind ?_
    rintro h₂ ⟨hc₂, hp₂, hs₂⟩
    have ho₂ : Owned T (n::held) h₂ v xs := by
      refine ⟨?_, hr₁.preserved (hp₂.mono ?_)⟩
      · rw [hv]
        exact hc₂.perm (List.Perm.swap b n held)
      · rw [hv]
        exact fun a ha => List.mem_append_left _ ha
    refine (releaseStorage_spec hl ho₂).bind ?_
    rintro h₃ ⟨hc₃, hp₃⟩
    have hs₃ := hs₂.preserved List.mem_cons_self hp₃
    have hlen : (xs ++ List.replicate spare.length (none : Option α)).length =
        (xs++spare).length := by
      simp only [List.length_append, List.length_replicate]
    refine ⟨⟨hc₃, hcount, hlive, _, hs₃, ?_, raw_replicate spare.length⟩, ?_, ?_, ?_, rfl⟩
    · rwa [hlen]
    · exact ((hp₁.trans hp₂).mono (fun a ha => List.mem_cons_of_mem b ha)).trans
        (hp₃.mono (fun a ha => List.mem_cons_of_mem n ha))
    · intro a ha hm
      obtain rfl : n = a := Option.some.inj ha
      exact hn (List.mem_cons_of_mem b hm)
    · rw [room_eq hv hstores, room_eq rfl hs₃]
      exact hlen

/-! ## A type with a constructor and a destructor -/

def paste (xs : List (Option α)) (i : ℕ) (items : List (Option α)) : List (Option α) :=
  xs.take i ++ (items ++ xs.drop (i+items.length))

def holds (p : Option α → Bool) (xs : List (Option α)) (i n : ℕ) : Bool :=
  decide (i+n ≤ xs.length) && ((xs.drop i).take n).all p

def guarded (c : Bool) (xs : List (Option α)) : Option (List (Option α)) :=
  if c then some xs else none

/-- Numbers in objects: every function gives nothing where it would build on an item or
take up one that is not there. -/
def objects : VectorType ℕ where
  header := 16
  itemSize := 4
  refuse := fun _ => false
  trivialCtor := false
  trivialDtor := false
  trivialCopy := false
  doConstruct xs i n :=
    guarded (holds Option.isNone xs i n) (paste xs i (List.replicate n (some 0)))
  doDestroy xs i n := guarded (holds Option.isSome xs i n) (paste xs i (List.replicate n none))
  doCopy xs i items :=
    guarded (holds Option.isNone xs i items.length && items.all Option.isSome) (paste xs i items)
  doSplat xs i item n :=
    guarded (holds Option.isNone xs i n && item.isSome) (paste xs i (List.replicate n item))
  doMoveForward xs dest i n :=
    let items := (xs.drop i).take n
    let rest := paste xs i (List.replicate n none)
    guarded (holds Option.isSome xs i n && holds Option.isNone rest dest n) (paste rest dest items)
  doMoveBackward xs dest i n :=
    let items := (xs.drop i).take n
    let rest := paste xs i (List.replicate n none)
    guarded (holds Option.isSome xs i n && holds Option.isNone rest dest n) (paste rest dest items)

theorem paste_mid (l m r items : List (Option α)) (hlen : items.length = m.length) :
    paste (l++(m++r)) l.length items = l ++ (items ++ r) := by
  rw [paste, List.take_left, hlen, ← List.append_assoc l m r,
    List.drop_left' (by rw [List.length_append])]

theorem holds_mid (p : Option α → Bool) (l m r : List (Option α)) :
    holds p (l++(m++r)) l.length m.length = m.all p := by
  rw [holds, List.drop_left, List.take_left]
  simp

theorem mid_items (l m r : List (Option α)) :
    ((l++(m++r)).drop l.length).take m.length = m := by
  rw [List.drop_left, List.take_left]

theorem objects_raw {m : List (Option ℕ)} (hm : ∀ c ∈ m, Raw objects c) :
    m.all Option.isNone = true := by
  rw [List.all_eq_true]
  intro c hc
  rcases hm c hc with ht | rfl
  · cases ht
  · rfl

theorem objects_live {m : List (Option ℕ)} (hm : ∀ c ∈ m, Live objects c) :
    m.all Option.isSome = true := by
  rw [List.all_eq_true]
  intro c hc
  rcases hm c hc with ht | hsome
  · cases ht
  · exact hsome

theorem objects_none {m : List (Option ℕ)} (hm : ∀ c ∈ m, Raw objects c) :
    m = List.replicate m.length none := by
  rw [List.eq_replicate_iff]
  refine ⟨rfl, fun c hc => ?_⟩
  exact (hm c hc).resolve_left (by decide)

theorem objects_gap {gap : List (Option ℕ)} (hgap : ∀ c ∈ gap, Raw objects c) (k : ℕ)
    (r : List (Option ℕ)) :
    List.replicate k none ++ (gap ++ r) = gap ++ (List.replicate k none ++ r) := by
  rw [← List.append_assoc, ← List.append_assoc, objects_none hgap,
    List.replicate_append_replicate, List.replicate_append_replicate, Nat.add_comm]

theorem objects_lawful : Lawful objects 0 where
  itemSize_pos := by decide
  small := by decide
  construct := by
    intro l m r hm
    simp only [objects, holds_mid, objects_raw hm, guarded, if_true]
    rw [paste_mid _ _ _ _ List.length_replicate]
  destroy := by
    intro l m r hm
    simp only [objects, holds_mid, objects_live hm, guarded, if_true]
    rw [paste_mid _ _ _ _ List.length_replicate]
  copy := by
    intro l m r items hlen hm hi
    simp only [objects, hlen, holds_mid, objects_raw hm, objects_live hi, guarded, Bool.and_self,
      if_true]
    rw [paste_mid _ _ _ _ hlen]
  splat := by
    intro l m r item hm hi
    have hsome : item.isSome = true := hi.resolve_left (by decide)
    simp only [objects, holds_mid, objects_raw hm, hsome, guarded, Bool.and_self, if_true]
    rw [paste_mid _ _ _ _ List.length_replicate]
  moveForward := by
    intro l m gap r hm hgap
    refine ⟨gap, rfl, hgap, ?_⟩
    have hrest : paste (l++(m++(gap++r))) l.length (List.replicate m.length none) =
        (l ++ gap) ++ (List.replicate m.length none ++ r) := by
      rw [paste_mid _ _ _ _ List.length_replicate, objects_gap hgap, List.append_assoc]
    have hempty : (List.replicate m.length (none : Option ℕ)).all Option.isNone = true := by simp
    have hholds := holds_mid Option.isNone (l ++ gap) (List.replicate m.length none) r
    have hpaste := paste_mid (l ++ gap) (List.replicate m.length none) r m (by simp)
    rw [List.length_append, List.length_replicate, hempty] at hholds
    rw [List.length_append] at hpaste
    simp only [objects, holds_mid, mid_items, objects_live hm, hrest, hholds, hpaste, guarded,
      Bool.and_self, if_true]
    rw [List.append_assoc]
  moveBackward := by
    intro l gap m r hm hgap
    refine ⟨gap, rfl, hgap, ?_⟩
    have hcut : l ++ (gap ++ (m ++ r)) = (l ++ gap) ++ (m ++ r) := by simp
    have hrest : paste ((l ++ gap) ++ (m ++ r)) (l ++ gap).length (List.replicate m.length none) =
        l ++ (List.replicate m.length none ++ (gap ++ r)) := by
      rw [paste_mid _ _ _ _ List.length_replicate, objects_gap hgap, List.append_assoc]
    have hempty : (List.replicate m.length (none : Option ℕ)).all Option.isNone = true := by simp
    have hholds := holds_mid Option.isNone l (List.replicate m.length none) (gap ++ r)
    have hpaste := paste_mid l (List.replicate m.length none) (gap ++ r) m (by simp)
    rw [List.length_replicate, hempty] at hholds
    have hlen : l.length+gap.length = (l ++ gap).length := by simp
    simp only [objects, hlen, hcut, holds_mid, mid_items, objects_live hm, hrest, hholds, hpaste,
      guarded, Bool.and_self, if_true]

end Wingray.VectorImpl
