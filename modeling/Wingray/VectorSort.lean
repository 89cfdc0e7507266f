import Wingray.StableInsertion
import Wingray.VectorEdits

/-!
# Sorting a vector

An insertion sort in the buffer. The buffer becomes the vector's own, and the place
for the item that moves is allocated, at the first item that is out of order.
-/

set_option autoImplicit false

namespace Wingray.VectorImpl
open CountedStore SharedBuffer OutcomeLogic StableInsertion

variable {α : Type}

section Functions
variable (T : VectorType α) (cmp : Option α → Option α → ℤ)

def slotOf (h : Memory α) (b i : ℕ) : Except Stop (Option α) := do
  let items ← readSource h (.stored b i) 1
  return items.headD none

def overwrite (h : Memory α) (b i : ℕ) (source : Source α) : Except Stop (Memory α) := do
  let h ← modify h b (fun xs => doDestroy T xs i 1)
  copyInto T h b i source 1

/-- The inner loop: the slot `j+1` takes the item at `j`, and so on to the left as long
as the items there come after the one in `temp`. -/
def shiftDown (b : ℕ) (temp : List (Option α)) : ℕ → Memory α → Except Stop (Memory α)
  | 0, h => do
    let h ← overwrite T h b 1 (.stored b 0)
    overwrite T h b 0 (.outside temp)
  | j+1, h => do
    let h ← overwrite T h b (j+2) (.stored b (j+1))
    let curr ← slotOf h b j
    if 0 < cmp curr (temp.headD none) then shiftDown b temp j h
    else overwrite T h b (j+1) (.outside temp)

/-- The place for the moving item, empty; null when there is no memory for it. -/
def prepareTemp (h : Memory α) (v : VectorImpl) (temp : Option (List (Option α))) :
    Except Stop (Option (List (Option α)) × VectorImpl × Memory α) := do
  match temp with
  | none =>
    let (v, h) ← editArrayImpl T h v
    if v.storage = none ∨ T.refuse h.next then return (none, v, bump h)
    return (some [none], v, bump h)
  | some cell =>
    let cell ← orFault (doDestroy T cell 0 1)
    return (some cell, v, h)

/-- One turn of the outer loop; nothing is answered when there is no memory. -/
def sortStep (h : Memory α) (v : VectorImpl) (temp : Option (List (Option α))) (i : ℕ) :
    Except Stop (Option (Option (List (Option α))) × VectorImpl × Memory α) := do
  match v.storage with
  | none => throw .fault
  | some b =>
    let curr ← slotOf h b (i-1)
    let item ← slotOf h b i
    if 0 < cmp curr item then
      let (cell, v, h) ← prepareTemp T h v temp
      match cell, v.storage with
      | some cell, some b =>
        let items ← readSource h (.stored b i) 1
        let cell ← orFault (doCopy T cell 0 items)
        let h ← shiftDown T cmp b cell (i-1) h
        return (some (some cell), v, h)
      | _, _ => return (none, v, h)
    return (some temp, v, h)

def sortLoop : ℕ → ℕ → Option (List (Option α)) → VectorImpl → Memory α →
    Except Stop (ℤ × VectorImpl × Memory α)
  | 0, _, none, v, h => .ok (noError, v, h)
  | 0, _, some cell, v, h => do
    let _ ← orFault (doDestroy T cell 0 1)
    return (noError, v, h)
  | n+1, i, temp, v, h => do
    let (next, v, h) ← sortStep T cmp h v temp i
    match next with
    | none => return (noMemory, v, h)
    | some temp => sortLoop n (i+1) temp v h

/-- The number of items is compared as a signed one. -/
def sort (h : Memory α) (v : VectorImpl) : Except Stop (ℤ × VectorImpl × Memory α) :=
  if 1 < ssize v.count then sortLoop T cmp (v.count-1) 1 none v h else .ok (noError, v, h)

end Functions

variable {T : VectorType α} {cmp : Option α → Option α → ℤ} {initial : α} {held : List ℕ}
  {h t : Memory α} {v : VectorImpl} {xs ys : List (Option α)} {b n : ℕ} {E : Stop → Prop}

def after (cmp : Option α → Option α → ℤ) (y x : Option α) : Bool := decide (0 < cmp y x)

theorem slotOf_eq {l r : List (Option α)} {x : Option α} (hs : Stores T h b (l ++ ([x] ++ r))) :
    readSource h (.stored b l.length) 1 = .ok [x] ∧ slotOf h b l.length = .ok x := by
  obtain ⟨k, hcell⟩ := content_cell hs
  have hread : readSource h (.stored b l.length) 1 = .ok [x] := by
    rw [readSource, cellAt_some hcell, ok_bind]
    have hslice := slice_eq (l ++ ([x] ++ r)) (i := l.length) (n := 1) (by simp)
    rw [hslice, List.drop_left]
    rfl
  refine ⟨hread, ?_⟩
  rw [slotOf, hread]
  rfl

theorem overwrite_spec (hl : Lawful T initial) (hc : Counted (b::held) h) (hb : b ∉ held)
    {l r : List (Option α)} {old new : Option α} (source : Source α)
    (hs : Stores T h b (l ++ ([old] ++ r))) (hold : Live T old) (hnew : Live T new)
    (hread : ∀ u slot, Stores T u b (l ++ ([slot] ++ r)) → readSource u source 1 = .ok [new]) :
    Meets E (fun t => Counted (b::held) t ∧ Preserved held h t ∧
      Stores T t b (l ++ ([new] ++ r))) (overwrite T h b l.length source) := by
  obtain ⟨gone, hglen, hgraw, hdestroy⟩ := doDestroy_eq hl l [old] r (by simpa using hold)
  obtain ⟨slot, rfl⟩ := List.length_eq_one_iff.mp hglen
  refine (modify_spec (f := fun cells => doDestroy T cells l.length 1) hc hs hb hdestroy
    (by simp)).bind ?_
  rintro h₁ ⟨hc₁, hp₁, hs₁⟩
  refine (copyInto_spec hl (m := [slot]) hc₁ hb hs₁ hgraw (hread h₁ slot hs₁) rfl
    (by simpa using hnew)).weaken ?_
  rintro t ⟨hct, hp, hst⟩
  exact ⟨hct, hp₁.trans hp, hst⟩

theorem neighbour_read {l r : List (Option α)} {y : Option α} (u : Memory α) (slot : Option α)
    (hs : Stores T u b ((l ++ [y]) ++ ([slot] ++ r))) :
    readSource u (.stored b l.length) 1 = .ok [y] := by
  rw [List.append_assoc] at hs
  exact (slotOf_eq hs).1

theorem shiftDown_spec (hl : Lawful T initial) {x : Option α} (hx : Live T x) (hb : b ∉ held)
    (p : List (Option α)) : ∀ {h : Memory α} {y hole : Option α} {r : List (Option α)},
    Counted (b::held) h → Stores T h b (p ++ [y] ++ ([hole] ++ r)) →
    (∀ c ∈ p ++ [y], Live T c) → Live T hole → after cmp y x = true →
    Meets E (fun t => Counted (b::held) t ∧ Preserved held h t ∧
      Stores T t b (insertRight (after cmp) x (p ++ [y]) ++ r))
      (shiftDown T cmp b [x] p.length h) := by
  induction p using List.reverseRecOn with
  | nil =>
    intro h y hole r hc hs hlive hhole hafter
    have hy : Live T y := hlive y (by simp)
    rw [List.length_nil, shiftDown]
    refine (overwrite_spec hl (l := [] ++ [y]) hc hb (.stored b 0) hs hhole hy
      (fun u slot hu => neighbour_read (l := []) u slot hu)).bind ?_
    rintro h₁ ⟨hc₁, hp₁, hs₁⟩
    refine (overwrite_spec hl (l := []) hc₁ hb (.outside [x]) hs₁ hy hx
      (fun _ _ _ => rfl)).weaken ?_
    rintro t ⟨hct, hp, hst⟩
    refine ⟨hct, hp₁.trans hp, ?_⟩
    rwa [insertRight_shift hafter]
  | append_singleton p z ih =>
    intro h y hole r hc hs hlive hhole hafter
    have hy : Live T y := hlive y (by simp)
    have hpz : ∀ c ∈ p ++ [z], Live T c := fun c hm => hlive c (List.mem_append_left _ hm)
    rw [List.length_append, List.length_singleton, shiftDown]
    have hover := overwrite_spec (E := E) hl (l := p ++ [z] ++ [y]) hc hb (.stored b (p.length+1))
      hs hhole hy (fun u slot hu => by
        have hread := neighbour_read (l := p ++ [z]) u slot hu
        rwa [List.length_append] at hread)
    simp only [List.length_append, List.length_singleton] at hover
    refine hover.bind ?_
    rintro h₁ ⟨hc₁, hp₁, hs₁⟩
    have hs₁' : Stores T h₁ b (p ++ ([z] ++ ([y] ++ ([y] ++ r)))) := by
      simpa [List.append_assoc] using hs₁
    rw [(slotOf_eq hs₁').2, ok_bind]
    rw [insertRight_shift hafter, List.append_assoc]
    refine Meets.ite (fun hpos => ?_) (fun hneg => ?_)
    · have hz : after cmp z x = true := decide_eq_true hpos
      refine (ih hc₁ (r := [y] ++ r) ?_ hpz hy hz).weaken ?_
      · rwa [List.append_assoc]
      · rintro t ⟨hct, hp, hst⟩
        exact ⟨hct, hp₁.trans hp, hst⟩
    · have hz : after cmp z x = false := decide_eq_false hneg
      rw [insertRight_stop hz]
      have hplace := overwrite_spec (E := E) hl (l := p ++ [z]) hc₁ hb (.outside [x])
        (r := [y] ++ r) (by rwa [List.append_assoc]) hy hx (fun _ _ _ => rfl)
      rw [List.length_append, List.length_singleton] at hplace
      refine hplace.weaken ?_
      rintro t ⟨hct, hp, hst⟩
      refine ⟨hct, hp₁.trans hp, ?_⟩
      rwa [List.append_assoc (p ++ [z])]

def Placed (T : VectorType α) (held : List ℕ) (v : VectorImpl) :
    Option (List (Option α)) → Prop
  | none => True
  | some cell => Sole held v ∧ ∃ c, cell = [c] ∧ Live T c

theorem prepareTemp_spec (hl : Lawful T initial) (ho : Owned T held h v xs)
    (hstorage : v.storage.isSome = true) {temp : Option (List (Option α))}
    (ht : Placed T held v temp) :
    Meets (Excuse T.toPlatform h False)
      (fun r => Preserved held h r.2.2 ∧ Owned T held r.2.2 r.2.1 xs ∧
        r.2.1.storage.isSome = true ∧
        match r.1 with
        | none => Refused T.refuse h r.2.2 ∧ temp = none
        | some cell => Sole held r.2.1 ∧ ∃ c, cell = [c] ∧ Raw T c)
      (prepareTemp T h v temp) := by
  cases temp with
  | none =>
    refine (editArrayImpl_spec hl ho).bind ?_
    rintro ⟨w, h₁⟩ ⟨ho₁, hp₁, hsole, -, hsome⟩
    have hw : w.storage.isSome = true := hsome.trans hstorage
    have ho₂ : Owned T held (bump h₁) w xs :=
      ho₁.preserved ho₁.counted.bump (preserved_bump _ h₁)
    refine Meets.ite (fun hstop => ?_) (fun _ => ?_)
    · refine ⟨hp₁.trans (preserved_bump held h₁), ho₂, hw, ?_, rfl⟩
      rcases hstop with hnone | href
      · rw [hnone] at hw
        cases hw
      · exact (refused_bump href).later hp₁
    · exact ⟨hp₁.trans (preserved_bump held h₁), ho₂, hw, hsole, none, rfl, .inr rfl⟩
  | some cell =>
    obtain ⟨hsole, c, rfl, hc⟩ := ht
    obtain ⟨gone, hglen, hgraw, hdestroy⟩ := doDestroy_eq hl [] [c] [] (by simpa using hc)
    obtain ⟨slot, rfl⟩ := List.length_eq_one_iff.mp hglen
    have hrun : doDestroy T [c] 0 1 = some [slot] := hdestroy
    simp only [prepareTemp, hrun, orFault, ok_bind]
    exact ⟨.refl held h, ho, hstorage, hsole, slot, rfl, hgraw slot List.mem_cons_self⟩

theorem owned_storage (ho : Owned T held h v xs) (hne : xs ≠ []) :
    v.storage.isSome = true := by
  cases hv : v.storage with
  | some b => rfl
  | none =>
    have hr := ho.represents.2.2
    rw [hv] at hr
    exact absurd hr hne

def Turned (T : VectorType α) (cmp : Option α → Option α → ℤ) (held : List ℕ) (p : List (Option α))
    (y x : Option α) (r : List (Option α)) (temp : Option (List (Option α))) (h : Memory α)
    (w : VectorImpl) (t : Memory α) : Option (Option (List (Option α))) → Prop
  | none => Refused T.refuse h t ∧ temp = none ∧ Owned T held t w (p ++ [y] ++ ([x] ++ r))
  | some temp' => Placed T held w temp' ∧ (temp' = none → temp = none ∧ after cmp y x = false) ∧
      Owned T held t w (insertRight (after cmp) x (p ++ [y]) ++ r)

theorem sortStep_spec (cmp : Option α → Option α → ℤ) (hl : Lawful T initial)
    {p r : List (Option α)} {y x : Option α}
    (ho : Owned T held h v (p ++ [y] ++ ([x] ++ r))) {temp : Option (List (Option α))}
    (ht : Placed T held v temp) :
    Meets (Excuse T.toPlatform h False)
      (fun res => Preserved held h res.2.2 ∧
        Turned T cmp held p y x r temp h res.2.1 res.2.2 res.1)
      (sortStep T cmp h v temp (p.length+1)) := by
  have hlive := ho.represents.2.1
  have hstorage := owned_storage ho (by simp)
  obtain ⟨b, hv⟩ := Option.isSome_iff_exists.mp hstorage
  obtain ⟨spare, -, hs, -, -⟩ := ho.room_eq hv
  have hy : slotOf h b p.length = .ok y := by
    refine (slotOf_eq (T := T) (r := [x] ++ r ++ spare) ?_).2
    simpa [List.append_assoc] using hs
  have hx : slotOf h b (p.length+1) = .ok x := by
    have hlen : (p ++ [y]).length = p.length+1 := by simp
    rw [← hlen]
    refine (slotOf_eq (T := T) (r := r ++ spare) ?_).2
    simpa [List.append_assoc] using hs
  have hxlive : Live T x := hlive x (by simp)
  simp only [sortStep, hv, Nat.add_sub_cancel, hy, hx, ok_bind]
  refine Meets.ite (fun hpos => ?_) (fun hneg => ?_)
  swap
  · have hafter : after cmp y x = false := decide_eq_false hneg
    refine ⟨.refl held h, ht, fun he => ⟨he, hafter⟩, ?_⟩
    rwa [insertRight_stop hafter, List.append_assoc (p ++ [y])]
  have hafter : after cmp y x = true := decide_eq_true hpos
  refine (prepareTemp_spec hl ho hstorage ht).bind ?_
  rintro ⟨_ | cell, w, h₁⟩ ⟨hp₁, ho₁, hw₁, hcell⟩
  · exact ⟨hp₁, hcell.1, hcell.2, ho₁⟩
  obtain ⟨hsole, c, rfl, hraw⟩ := hcell
  obtain ⟨b₁, hw⟩ : ∃ b, w.storage = some b := Option.isSome_iff_exists.mp hw₁
  obtain ⟨spare₁, hraw₁, hs₁, hfits, -⟩ := ho₁.room_eq hw
  have hc₁ : Counted (b₁::held) h₁ := by
    have hown := ho₁.counted
    rwa [hw] at hown
  have hb := hsole b₁ hw
  -- the moving item goes to its place aside
  have hread : readSource h₁ (.stored b₁ (p.length+1)) 1 = .ok [x] := by
    have hlen : (p ++ [y]).length = p.length+1 := by simp
    rw [← hlen]
    refine (slotOf_eq (T := T) (r := r ++ spare₁) ?_).1
    simpa [List.append_assoc] using hs₁
  have hcopy : doCopy T [c] 0 [x] = some [x] :=
    doCopy_eq hl [] [c] [] rfl (by simpa using hraw) (by simpa using hxlive)
  have hs₁' : Stores T h₁ b₁ (p ++ [y] ++ ([x] ++ (r ++ spare₁))) := by
    simpa [List.append_assoc] using hs₁
  have hshift := shiftDown_spec (E := Excuse T.toPlatform h False) hl hxlive hb p hc₁ hs₁'
    (fun a ha => hlive a (List.mem_append_left _ ha)) hxlive hafter
  simp only [hw, hread, ok_bind, hcopy, orFault]
  refine hshift.bind ?_
  rintro t ⟨hct, hp, hst⟩
  have hcount : w.count = (p ++ [y] ++ ([x] ++ r)).length := ho₁.represents.1
  have hperm := @insertRight_perm _ (after cmp) x (p ++ [y])
  have hlen : (insertRight (after cmp) x (p ++ [y]) ++ r).length =
      (p ++ [y] ++ ([x] ++ r)).length := by
    rw [List.length_append, hperm.length_eq]
    simp only [List.length_append]
    omega
  refine ⟨hp₁.trans hp, ⟨hsole, x, rfl, hxlive⟩, (by simp), ?_⟩
  have hself : w = ⟨some b₁, w.count⟩ := by rw [← hw]
  rw [hself]
  refine owned_of_stores hct ?_ (by rwa [List.append_assoc]) ?_ hraw₁ (hcount.trans hlen.symm)
  · intro a ha
    rcases List.mem_append.mp ha with ha | ha
    · have hm := hperm.mem_iff.mp ha
      refine hlive a ?_
      simp only [List.mem_append] at hm ⊢
      tauto
    · exact hlive a (by simp [ha])
  · rwa [List.length_append, hlen, ← List.length_append]

/-- From a sorted front the loop sorts the rest into it. -/
theorem sortLoop_spec (hl : Lawful T initial) (n : ℕ) : ∀ {i : ℕ} {h : Memory α} {v : VectorImpl}
    {temp : Option (List (Option α))}, 1 ≤ i → i+n = xs.length →
    Owned T held h v (sortRight (after cmp) (xs.take i) ++ xs.drop i) → Placed T held v temp →
    (temp = none → sortRight (after cmp) (xs.take i) = xs.take i) →
    Meets (Excuse T.toPlatform h False)
      (Became T held h (fun refused ret ys =>
        ret = noError ∧ ys = sortRight (after cmp) xs ∨ ret = noMemory ∧ refused ∧ ys = xs))
      (sortLoop T cmp n i temp v h) := by
  induction n with
  | zero =>
    intro i h v temp _ hi ho ht _
    obtain rfl : i = xs.length := by omega
    rw [List.take_length, List.drop_length, List.append_nil] at ho
    cases temp with
    | none => exact ⟨.refl held h, _, .inl ⟨rfl, rfl⟩, ho⟩
    | some cell =>
      obtain ⟨-, c, rfl, hc⟩ := ht
      obtain ⟨gone, -, -, hdestroy⟩ := doDestroy_eq hl [] [c] [] (by simpa using hc)
      have hrun : doDestroy T [c] 0 1 = some (gone ++ []) := hdestroy
      simp only [sortLoop, hrun, orFault, ok_bind]
      exact ⟨.refl held h, _, .inl ⟨rfl, rfl⟩, ho⟩
  | succ n ih =>
    intro i h v temp hi1 hi ho ht hsame
    have hix : i < xs.length := by omega
    -- the sorted front ends with an item, and the next one follows it
    have hfront : sortRight (after cmp) (xs.take i) ≠ [] := by
      rw [← List.length_pos_iff, sortRight_length, List.length_take]
      omega
    obtain ⟨p, y, hp⟩ := (List.eq_nil_or_concat' _).resolve_left hfront
    have hplen : p.length+1 = i := by
      have hlen := @sortRight_length _ (after cmp) (xs.take i)
      rw [hp, List.length_append, List.length_singleton, List.length_take] at hlen
      omega
    have hdrop : xs.drop i = [xs[i]] ++ xs.drop (i+1) := List.drop_eq_getElem_cons hix
    have htake : xs.take (i+1) = xs.take i ++ [xs[i]] := List.take_succ_eq_append_getElem hix
    have hnext : sortRight (after cmp) (xs.take (i+1)) =
        insertRight (after cmp) xs[i] (p ++ [y]) := by
      rw [htake, sortRight_concat, hp]
    rw [hp, hdrop] at ho
    have hstep := sortStep_spec cmp hl ho ht
    rw [hplen] at hstep
    rw [sortLoop]
    refine hstep.bind ?_
    rintro ⟨_ | temp', w, h₁⟩ ⟨hp₁, hres⟩
    · obtain ⟨href, hnone, ho₁⟩ := hres
      refine ⟨hp₁, xs, .inr ⟨rfl, href, rfl⟩, ?_⟩
      rwa [← hp, ← hdrop, hsame hnone, List.take_append_drop] at ho₁
    · obtain ⟨hplaced, hkeep, ho₁⟩ := hres
      rw [← hnext] at ho₁
      refine (ih (by omega) (by omega) ho₁ hplaced ?_).mono (Excuse.later _ hp₁) ?_
      · intro he
        obtain ⟨hnone, hafter⟩ := hkeep he
        rw [hnext, insertRight_stop hafter, ← hp, hsame hnone, ← htake]
      · rintro res ⟨hp₂, ys, hys, hown⟩
        refine ⟨hp₁.trans hp₂, ys, ?_, hown⟩
        exact hys.imp_right (fun hno => ⟨hno.1, hno.2.1.later hp₁, hno.2.2⟩)

def Sorting (cmp : Option α → Option α → ℤ) (xs : List (Option α)) (refused : Prop) (ret : ℤ)
    (ys : List (Option α)) : Prop :=
  (ret = noError ∧ ys = if xs.length < 2^31 then sortRight (after cmp) xs else xs) ∨
  (ret = noMemory ∧ refused ∧ ys = xs)

theorem sortRight_short (hlen : xs.length ≤ 1) : sortRight (after cmp) xs = xs := by
  cases xs with
  | nil => rfl
  | cons x xs =>
    obtain rfl : xs = [] := by simpa using hlen
    rfl

theorem sort_spec (hl : Lawful T initial) (ho : Owned T held h v xs) :
    Meets (Excuse T.toPlatform h False) (Became T held h (Sorting cmp xs)) (sort T cmp h v) := by
  have hcount : v.count = xs.length := ho.represents.1
  have hsmall := ho.small hl.itemSize_pos
  rw [sort, hcount, ssize]
  split
  case isFalse hbig =>
    rw [if_neg (by omega)]
    exact ⟨.refl held h, xs, .inl ⟨rfl, by rw [if_neg hbig]⟩, ho⟩
  case isTrue hfit =>
    refine Meets.ite (fun hlt => ?_) (fun hle => ?_)
    · have hlen : 1 < xs.length := by exact_mod_cast hlt
      have hone : sortRight (after cmp) (xs.take 1) = xs.take 1 :=
        sortRight_short (by rw [List.length_take]; omega)
      have ho₁ : Owned T held h v (sortRight (after cmp) (xs.take 1) ++ xs.drop 1) := by
        rwa [hone, List.take_append_drop]
      have hplaced : Placed T held v none := trivial
      refine (sortLoop_spec hl (xs.length-1) le_rfl (by omega) ho₁ hplaced
        (fun _ => hone)).weaken ?_
      · rintro r ⟨hp, ys, ⟨hret, hys⟩ | hno, hown⟩
        · exact ⟨hp, ys, .inl ⟨hret, by rw [if_pos hfit, hys]⟩, hown⟩
        · exact ⟨hp, ys, .inr hno, hown⟩
    · have hlen : xs.length ≤ 1 := by exact_mod_cast not_lt.mp hle
      exact ⟨.refl held h, xs, .inl ⟨rfl, by rw [if_pos hfit, sortRight_short hlen]⟩, ho⟩

end Wingray.VectorImpl
