import Wingray.VectorContents

/-!
# Opening and closing gaps

`grow` opens a gap of raw slots in a buffer that no other vector uses, `shrink`
takes items out. Both either do so or leave the vector's items as they are.
-/

set_option autoImplicit false

namespace Wingray.VectorImpl
open CountedStore SharedBuffer OutcomeLogic

variable {α : Type} {T : VectorType α} {initial : α} {held : List ℕ} {h t : Memory α}
  {v : VectorImpl} {xs items : List (Option α)} {b n : ℕ} {E : Stop → Prop}

/-- The buffer `b` holds the items with a gap of `amount` slots at `index`. -/
def Opened (T : VectorType α) (held : List ℕ) (t : Memory α) (b : ℕ) (xs : List (Option α))
    (index amount : ℕ) : Prop :=
  b ∉ held ∧ Counted (b::held) t ∧ ∃ gap spare : List (Option α), gap.length = amount ∧
    (∀ c ∈ gap, Raw T c) ∧ (∀ c ∈ spare, Raw T c) ∧
    Fits T (xs.length+amount+spare.length) ∧
    Stores T t b (xs.take index ++ (gap ++ (xs.drop index ++ spare)))

/-- More items than a buffer can have room for, with what `_grow` adds to it. -/
def TooMany (T : VectorType α) (n : ℕ) : Prop := ¬ Fits T (max kMinVectorCapacity (n+n/2+1))

theorem Fits.lt (hpos : 0 < T.itemSize) (hf : Fits T n) : n < sizeMax := by
  have hle := Nat.le_mul_of_pos_right n hpos
  have hlt : n*T.itemSize < sizeMax-T.header := hf
  omega

theorem Fits.mono {m : ℕ} (hf : Fits T n) (hm : m ≤ n) : Fits T m :=
  (Nat.mul_le_mul_right _ hm).trans_lt hf

theorem tooMany_of_lt (hpos : 0 < T.itemSize) {m : ℕ} (hm : sizeMax < m) (hle : m ≤ n+n/2+1) :
    TooMany T n := by
  intro hf
  have hlt := hf.lt hpos
  have hmax := le_max_right kMinVectorCapacity (n+n/2+1)
  omega

theorem cells_length (xs : List (Option α)) {gap spare : List (Option α)} {index : ℕ} :
    (xs.take index ++ (gap ++ (xs.drop index ++ spare))).length =
      xs.length+gap.length+spare.length := by
  simp only [List.length_append, List.length_take, List.length_drop]
  omega

theorem editResize_keep (hl : Lawful T initial) (ho : Owned T held h v xs)
    (hv : v.storage = some b) (ht : T.trivialDtor = true) (k cap : ℕ) (hk : k ≤ xs.length)
    (hcap : k ≤ cap) :
    Meets (Excuse T.toPlatform h (¬ Fits T cap))
      (fun r => match r.1 with
        | none => Refused T.refuse h r.2 ∧ Owned T held r.2 v xs ∧ Preserved held h r.2
        | some n => Preserved held h r.2 ∧ n ∉ held ∧ Counted (n::held) r.2 ∧ Fits T cap ∧
            ∃ rest : List (Option α), k+rest.length = cap ∧ (∀ c ∈ rest, Raw T c) ∧
              Stores T r.2 n (xs.take k ++ rest))
      (editResize T.toPlatform h b (cap*T.itemSize)) := by
  obtain ⟨hc, hcount, hlive, hs⟩ := ho
  have ho : Owned T held h v xs := ⟨hc, hcount, hlive, hs⟩
  rw [hv] at hc hs
  change Counted (b::held) h at hc
  obtain ⟨spare, hstores, hfits, -⟩ := hs
  have hpayload : (xs++spare).length = (xs++spare).length*T.itemSize/T.itemSize :=
    (Nat.mul_div_cancel _ hl.itemSize_pos).symm
  have hedit := editResize_spec (y := T.toPlatform) hc hstores hpayload (cap*T.itemSize)
  refine (hedit.and (editResize_small hstores _)).mono (Excuse.mono _ not_lt.mpr) ?_
  rintro ⟨_ | n, t⟩ ⟨hg, hsmall⟩
  · obtain ⟨href, hct, hp⟩ := hg
    refine ⟨href, ho.preserved ?_ ?_, ?_⟩
    · rwa [hv]
    · rw [hv]
      exact hp.mono (fun a ha => List.mem_cons.mpr (.inl (List.mem_singleton.mp ha)))
    · exact hp.mono (fun a ha => List.mem_cons_of_mem b ha)
  · obtain ⟨hn, hx, hct, hp⟩ := hg
    have hcapfits : Fits T cap := by
      rcases hsmall with heq | hlt
      · have hbytes : cap*T.itemSize = (xs++spare).length*T.itemSize := heq
        rwa [Fits, hbytes]
      · exact hlt
    have hlen := @List.length_append _ xs spare
    -- the bytes of the buffer, of which the first `k` items stay
    let all := (xs++spare).take cap ++ List.replicate (cap-(xs++spare).length) (none : Option α)
    have hall : all.length = cap := by
      simp only [all, List.length_append, List.length_take, List.length_replicate]
      omega
    have hfirst : all.take k = xs.take k := by
      rw [List.take_append_of_le_length (by rw [List.length_take]; omega), List.take_take,
        min_eq_left hcap, List.take_append_of_le_length hk]
    refine ⟨hp, hn, hct, hcapfits, all.drop k, ?_, fun _ _ => .inl ht, ?_⟩
    · rw [List.length_drop, hall]
      omega
    · rw [← hfirst, List.take_append_drop, Stores, hall, hx, resized,
        Nat.mul_div_cancel _ hl.itemSize_pos]

theorem editResize_open (hl : Lawful T initial) (ho : Owned T held h v xs)
    (hv : v.storage = some b) (ht : T.trivialDtor = true) (amount cap : ℕ)
    (hcap : xs.length+amount ≤ cap) :
    Meets (Excuse T.toPlatform h (¬ Fits T cap))
      (fun r => match r.1 with
        | none => Refused T.refuse h r.2 ∧ Owned T held r.2 v xs ∧ Preserved held h r.2
        | some n => Preserved held h r.2 ∧ Opened T held r.2 n xs xs.length amount)
      (editResize T.toPlatform h b (cap*T.itemSize)) := by
  refine (editResize_keep hl ho hv ht _ _ le_rfl (by omega)).weaken ?_
  rintro ⟨_ | n, t⟩ hg
  · exact hg
  · obtain ⟨hp, hn, hct, hfits, rest, hlen, hraw, hs⟩ := hg
    refine ⟨hp, hn, hct, rest.take amount, rest.drop amount, ?_,
      fun c hm => hraw c (List.mem_of_mem_take hm),
      fun c hm => hraw c (List.mem_of_mem_drop hm), ?_, ?_⟩
    · rw [List.length_take]
      omega
    · refine hfits.mono ?_
      rw [List.length_drop]
      omega
    · rwa [List.drop_length, List.nil_append, List.take_append_drop]

theorem enlarge_spec (hl : Lawful T initial) (ho : Owned T held h v xs) {index amount : ℕ}
    (hix : index ≤ xs.length) :
    Meets (Excuse T.toPlatform h (TooMany T (xs.length+amount)))
      (fun r => match r.1 with
        | none => Refused T.refuse h r.2 ∧ Owned T held r.2 v xs ∧ Preserved held h r.2
        | some n => Preserved held h r.2 ∧ Opened T held r.2 n xs index amount)
      (enlarge T h v index amount (xs.length+amount)) := by
  have hpos := hl.itemSize_pos
  have hcount : v.count = xs.length := ho.represents.1
  rw [enlarge]
  generalize hN : xs.length+amount = N
  apply Meets.bind (fatalIf_spec (c := sizeMax < N+N/2)
    (fun hlt => tooMany_of_lt hpos hlt (Nat.le_succ _)))
  intro _ _
  apply Meets.bind (fatalIf_spec (c := sizeMax < N+N/2+1)
    (fun hlt => tooMany_of_lt hpos hlt le_rfl))
  intro _ _
  generalize hcap : max kMinVectorCapacity (N+N/2+1) = cap
  have hNcap : N+N/2+1 ≤ cap := hcap ▸ le_max_right _ _
  have hmany : ¬ Fits T cap → TooMany T N := fun hf => by rwa [TooMany, hcap]
  have hbytes : sizeMax < cap*T.itemSize → TooMany T N := by
    intro hlt
    apply hmany
    intro hf
    have hbound : cap*T.itemSize < sizeMax-T.header := hf
    omega
  apply Meets.bind (fatalIf_spec (c := sizeMax < cap*T.itemSize) hbytes)
  intro _ _
  have hmove : Meets (Excuse T.toPlatform h (TooMany T N))
      (fun r => match r.1 with
        | none => Refused T.refuse h r.2 ∧ Owned T held r.2 v xs ∧ Preserved held h r.2
        | some n => Preserved held h r.2 ∧ Opened T held r.2 n xs index amount)
      (relocate T h v (cap*T.itemSize) index (index+amount) index (v.count-index)) := by
    refine (relocate_spec hl ho _ (Nat.le_add_right index amount) hix (by omega)
      (by omega)).mono (Excuse.mono _ hmany) ?_
    rintro ⟨_ | n, t⟩ hg
    · exact hg
    · obtain ⟨hb, hct, hp, hfits, hs⟩ := hg
      refine ⟨hp, hb, hct, List.replicate amount none, _, List.length_replicate,
        raw_replicate amount, raw_replicate (cap-(index+amount)-(v.count-index)), ?_, ?_⟩
      · refine hfits.mono ?_
        rw [List.length_replicate]
        omega
      · rwa [Nat.add_sub_cancel_left] at hs
  cases hv : v.storage with
  | none => exact hmove
  | some b =>
    refine Meets.ite ?_ (fun _ => hmove)
    rintro ⟨hend, -, htd⟩
    have hopen := editResize_open hl ho hv htd amount cap (by omega)
    rw [show index = xs.length by omega]
    exact hopen.mono (Excuse.mono _ hmany) (fun _ hg => hg)

theorem Owned.room_eq (ho : Owned T held h v xs) (hv : v.storage = some b) :
    ∃ spare : List (Option α), (∀ c ∈ spare, Raw T c) ∧ Stores T h b (xs++spare) ∧
      Fits T (xs++spare).length ∧ room h v = xs.length+spare.length := by
  obtain ⟨-, -, -, hs⟩ := ho
  rw [hv] at hs
  obtain ⟨spare, hstores, hfits, hraw⟩ := hs
  exact ⟨spare, hraw, hstores, hfits, by
    rw [VectorImpl.room_eq hv hstores, List.length_append]⟩

theorem Owned.small (hpos : 0 < T.itemSize) (ho : Owned T held h v xs) : xs.length < 2^32 := by
  cases hv : v.storage with
  | none =>
    have hr := ho.represents.2.2
    rw [hv] at hr
    simp [hr]
  | some b =>
    obtain ⟨spare, -, -, hfits, -⟩ := ho.room_eq hv
    have hlt := hfits.lt hpos
    have hmax : sizeMax < 2^32 := by decide
    rw [List.length_append] at hlt
    omega

theorem moveForward_spec (hl : Lawful T initial) (ho : Owned T held h v xs)
    (hsole : Sole held v) (hv : v.storage = some b) {index amount : ℕ} (hix : index ≤ xs.length)
    (hroom : xs.length+amount ≤ room h v) :
    Meets E (fun t => Preserved held h t ∧ Opened T held t b xs index amount ∧
      room t v = room h v) (moveForward T h v index amount) := by
  obtain ⟨spare, hraw, hstores, hfits, hlen⟩ := ho.room_eq hv
  have hc : Counted (b::held) h := by
    have hown := ho.counted
    rwa [hv] at hown
  have hb := hsole b hv
  have hcount : v.count = xs.length := ho.represents.1
  have hgap : (spare.take amount).length = amount := by
    rw [List.length_take]
    omega
  have hrawgap : ∀ c ∈ spare.take amount, Raw T c := fun c hm => hraw c (List.mem_of_mem_take hm)
  have hrawrest : ∀ c ∈ spare.drop amount, Raw T c := fun c hm => hraw c (List.mem_of_mem_drop hm)
  have hfits' : Fits T (xs.length+amount+(spare.drop amount).length) := by
    refine hfits.mono ?_
    rw [List.length_drop, List.length_append]
    omega
  rw [moveForward, hv, hcount]
  refine Meets.ite (fun _ => ?_) (fun hend => ?_)
  · have hcut : xs++spare = xs.take index ++ (xs.drop index ++ (spare.take amount ++
        spare.drop amount)) := by
      rw [List.take_append_drop, ← List.append_assoc, List.take_append_drop]
    obtain ⟨vacated, hvlen, hvraw, hmove⟩ := hl.moveForward (xs.take index) (xs.drop index)
      (spare.take amount) (spare.drop amount)
      (fun c hm => ho.represents.2.1 c (List.mem_of_mem_drop hm)) hrawgap
    rw [List.length_take_of_le hix, hgap, List.length_drop, ← hcut] at hmove
    have hcells : (xs.take index ++ (vacated ++ (xs.drop index ++ spare.drop amount))).length =
        (xs++spare).length := by
      rw [cells_length, hvlen, hgap, List.length_drop, List.length_append]
      omega
    refine (modify_spec hc hstores hb hmove hcells).weaken ?_
    rintro t ⟨hct, hp, hst⟩
    refine ⟨hp, ⟨hb, hct, vacated, _, by rw [hvlen, hgap], hvraw, hrawrest, hfits', hst⟩, ?_⟩
    rw [VectorImpl.room_eq hv hst, VectorImpl.room_eq hv hstores, hcells]
  · obtain rfl : index = xs.length := not_not.mp hend
    refine ⟨.refl held h, ⟨hb, hc, _, _, hgap, hrawgap, hrawrest, hfits', ?_⟩, rfl⟩
    rwa [List.take_length, List.drop_length, List.nil_append, List.take_append_drop]

theorem Opened.close (ho : Opened T held t b xs n 0) (hlive : ∀ c ∈ xs, Live T c) :
    Owned T held t ⟨some b, xs.length⟩ xs := by
  obtain ⟨-, hc, gap, spare, hgap, -, hraw, hfits, hs⟩ := ho
  obtain rfl := List.length_eq_zero_iff.mp hgap
  rw [List.nil_append, ← List.append_assoc, List.take_append_drop] at hs
  refine ⟨hc, rfl, hlive, spare, hs, ?_, hraw⟩
  rwa [List.length_append]

theorem itemLocation_eq {v : VectorImpl} {cells : List (Option α)} (hl : Lawful T initial)
    (hv : v.storage = some b) (hs : Stores T t b cells) (index : ℕ) :
    itemLocation T t v index = .ok (if index < cells.length then some (b, index) else none) := by
  obtain ⟨r, hcell⟩ := content_cell hs
  simp only [itemLocation, capacity, hv, cellAt_some hcell, ok_bind, pure_bind,
    Nat.mul_div_cancel _ hl.itemSize_pos, Option.map_some]
  rfl

def Grown (T : VectorType α) (held : List ℕ) (h : Memory α) (xs : List (Option α))
    (index amount : ℕ) (r : Option (ℕ × ℕ) × VectorImpl × Memory α) : Prop :=
  Preserved held h r.2.2 ∧
  match r.1 with
  | none => (Refused T.refuse h r.2.2 ∨ amount = 0) ∧ Owned T held r.2.2 r.2.1 xs
  | some (b, i) => i = index ∧ r.2.1 = ⟨some b, xs.length+amount⟩ ∧
      Opened T held r.2.2 b xs index amount

theorem Opened.grown (hl : Lawful T initial) (hlive : ∀ c ∈ xs, Live T c) {index amount : ℕ}
    (hix : index ≤ xs.length) (ho : Opened T held t b xs index amount) (hp : Preserved held h t) :
    Meets E (Grown T held h xs index amount)
      (do let place ← itemLocation T t ⟨some b, xs.length+amount⟩ index
          pure (place, ⟨some b, xs.length+amount⟩, t)) := by
  obtain ⟨hb, hc, gap, spare, hgap, hrest⟩ := ho
  have hs := hrest.2.2.2
  rw [itemLocation_eq (v := ⟨some b, xs.length+amount⟩) hl rfl hs, cells_length, ok_bind,
    meets_pure]
  split
  case isTrue => exact ⟨hp, rfl, rfl, hb, hc, gap, spare, hgap, hrest⟩
  case isFalse hn =>
    obtain rfl : amount = 0 := by omega
    exact ⟨hp, .inr rfl, Opened.close (n := index) ⟨hb, hc, gap, spare, hgap, hrest⟩ hlive⟩

theorem grow_spec (hl : Lawful T initial) (ho : Owned T held h v xs) {index : ℕ}
    (hix : index ≤ xs.length) (amount : ℕ) :
    Meets (Excuse T.toPlatform h (TooMany T (xs.length+amount))) (Grown T held h xs index amount)
      (grow T h v index amount) := by
  have hcount : v.count = xs.length := ho.represents.1
  have hlive := ho.represents.2.1
  rw [grow, hcount]
  apply Meets.bind (fatalIf_spec (c := sizeMax < xs.length+amount)
    (fun hlt => tooMany_of_lt hl.itemSize_pos hlt (by omega)))
  intro _ _
  rw [capacity_eq hl ho.represents, ok_bind]
  refine Meets.ite (fun _ => ?_) (fun hroom => ?_)
  · refine (enlarge_spec hl ho hix).bind ?_
    rintro ⟨_ | b, h₁⟩ hg
    · obtain ⟨href, ho₁, hp₁⟩ := hg
      exact ⟨hp₁, .inl href, ho₁⟩
    · exact hg.2.grown hl hlive hix hg.1
  · refine ((editArrayImpl_spec hl ho).mono (Excuse.mono _ False.elim) (fun _ hg => hg)).bind ?_
    rintro ⟨w, h₁⟩ ⟨ho₁, hp₁, hsole, hroom₁, -⟩
    have hw : w.count = xs.length := ho₁.represents.1
    cases hs : w.storage with
    | none =>
      obtain rfl : xs = [] := by
        have hr := ho₁.represents.2.2
        rwa [hs] at hr
      have hzero : room h₁ w = 0 := by rw [room, hs]
      rw [hroom₁] at hzero
      obtain rfl : amount = 0 := by
        rw [hzero] at hroom
        omega
      obtain rfl : index = 0 := Nat.le_zero.mp hix
      have hmove : moveForward T h₁ w 0 0 = .ok h₁ := by
        rw [moveForward, hw]
        exact if_neg (by simp)
      refine Meets.bind (Q := fun u => u = h₁) (by rw [hmove]; rfl) ?_
      rintro _ rfl
      obtain rfl : w = ⟨none, 0⟩ := by
        cases w
        cases hs
        cases hw
        rfl
      exact ⟨hp₁, .inr rfl, ho₁⟩
    | some b =>
      refine (moveForward_spec hl ho₁ hsole hs hix (by omega)).bind ?_
      rintro h₂ ⟨hp₂, hopen, -⟩
      have hself : (⟨w.storage, xs.length+amount⟩ : VectorImpl) = ⟨some b, xs.length+amount⟩ := by
        rw [hs]
      rw [hself]
      exact hopen.grown hl hlive hix (hp₁.trans hp₂)

theorem add32_eq {a b : ℕ} (h : a+b < 2^32) : add32 a b = a+b := Nat.mod_eq_of_lt h

theorem sub32_eq {a b : ℕ} (hb : b ≤ a) (ha : a < 2^32) : sub32 a b = a-b := by
  rw [sub32, show a+2^32-b = a-b+2^32 by omega, Nat.add_mod_right, Nat.mod_eq_of_lt (by omega)]

def without (xs : List (Option α)) (index amount : ℕ) : List (Option α) :=
  xs.take index ++ xs.drop (index+amount)

theorem without_length {index amount : ℕ} (hle : index+amount ≤ xs.length) :
    (without xs index amount).length = xs.length-amount := by
  rw [without, List.length_append, List.length_take, List.length_drop]
  omega

theorem without_live (index amount : ℕ) (hlive : ∀ c ∈ xs, Live T c) :
    ∀ c ∈ without xs index amount, Live T c := by
  intro c hc
  rcases List.mem_append.mp hc with hc | hc
  · exact hlive c (List.mem_of_mem_take hc)
  · exact hlive c (List.mem_of_mem_drop hc)

theorem owned_of_stores {spare : List (Option α)} (hc : Counted (b::held) t)
    (hlive : ∀ c ∈ xs, Live T c) (hs : Stores T t b (xs++spare))
    (hfits : Fits T (xs++spare).length) (hraw : ∀ c ∈ spare, Raw T c) (hn : n = xs.length) :
    Owned T held t ⟨some b, n⟩ xs :=
  ⟨hc, hn, hlive, spare, hs, hfits, hraw⟩

theorem reduce_spec (hl : Lawful T initial) (ho : Owned T held h v xs) (hv : v.storage = some b)
    {index amount : ℕ} (hle : index+amount ≤ xs.length)
    (hroom : xs.length-amount < room h v/2) :
    Meets (Excuse T.toPlatform h False)
      (fun r => match r.1 with
        | none => Refused T.refuse h r.2 ∧ Owned T held r.2 v xs ∧ Preserved held h r.2
        | some n => Preserved held h r.2 ∧
            Owned T held r.2 ⟨some n, xs.length-amount⟩ (without xs index amount))
      (reduce T h v b index amount (xs.length-amount)) := by
  obtain ⟨spare, hraw, hstores, hfits, hlen⟩ := ho.room_eq hv
  have hlive := without_live index amount ho.represents.2.1
  have hsize := without_length hle
  have hn : xs.length < sizeMax := by
    have hlt := hfits.lt hl.itemSize_pos
    rw [List.length_append] at hlt
    omega
  have hmax : sizeMax < 2^32 := by decide
  rw [reduce]
  generalize hcap : max kMinVectorCapacity ((xs.length-amount)*2) = cap
  have hcaple : (xs.length-amount)*2 ≤ cap := hcap ▸ le_max_right _ _
  have hcapfits : Fits T cap := by
    rcases max_choice kMinVectorCapacity ((xs.length-amount)*2) with hm | hm
    · rw [← hcap, hm]
      exact hl.small
    · rw [← hcap, hm]
      refine hfits.mono ?_
      rw [List.length_append]
      omega
  have hbytes : cap*T.itemSize%2^32 = cap*T.itemSize := by
    have hlt : cap*T.itemSize < sizeMax-T.header := hcapfits
    exact Nat.mod_eq_of_lt (by omega)
  simp only [hbytes]
  refine Meets.ite ?_ (fun _ => ?_)
  · rintro ⟨hend, -, htd⟩
    refine (editResize_keep hl ho hv htd index cap (by omega) (by omega)).mono
      (Excuse.mono _ (fun hf => hf hcapfits)) ?_
    rintro ⟨_ | n, t⟩ hg
    · exact hg
    · obtain ⟨hp, -, hct, -, rest, hrest, hrawrest, hs⟩ := hg
      have hxs : without xs index amount = xs.take index := by
        rw [without, List.drop_eq_nil_of_le (by omega), List.append_nil]
      rw [hxs] at hsize hlive ⊢
      refine ⟨hp, owned_of_stores hct hlive hs ?_ hrawrest hsize.symm⟩
      refine hcapfits.mono ?_
      rw [List.length_append, List.length_take]
      omega
  · rw [add32_eq (by omega), sub32_eq (by omega) (by omega)]
    refine (relocate_spec hl ho cap (le_refl index) (by omega) (by omega)
      (by omega)).mono (Excuse.mono _ (fun hf => hf hcapfits)) ?_
    rintro ⟨_ | n, t⟩ hg
    · exact hg
    · obtain ⟨-, hct, hp, -, hs⟩ := hg
      rw [Nat.sub_self, List.replicate_zero, List.nil_append, ← List.append_assoc] at hs
      refine ⟨hp, owned_of_stores hct hlive hs ?_ (raw_replicate _) hsize.symm⟩
      refine hcapfits.mono ?_
      rw [List.length_append, hsize, List.length_replicate]
      omega

theorem moveBackward_spec (hl : Lawful T initial) (hc : Counted (b::held) h) (hb : b ∉ held)
    {index amount : ℕ} {gone spare : List (Option α)}
    (hs : Stores T h b (xs.take index ++ (gone ++ (xs.drop (index+amount) ++ spare))))
    (hle : index+amount ≤ xs.length) (hsmall : xs.length < sizeMax)
    (hraw : ∀ c ∈ gone, Raw T c) (hglen : gone.length = amount) (hlive : ∀ c ∈ xs, Live T c) :
    Meets E (fun t => Counted (b::held) t ∧ Preserved held h t ∧ ∃ rest : List (Option α),
      rest.length = amount ∧ (∀ c ∈ rest, Raw T c) ∧
        Stores T t b (without xs index amount ++ (rest ++ spare)))
      (moveBackward T h b index amount (xs.length-amount)) := by
  have hmax : sizeMax < 2^32 := by decide
  rw [moveBackward]
  refine Meets.ite (fun _ => ?_) (fun hend => ?_)
  · obtain ⟨vacated, hvlen, hvraw, hmove⟩ := hl.moveBackward (xs.take index) gone
      (xs.drop (index+amount)) spare (fun c hm => hlive c (List.mem_of_mem_drop hm)) hraw
    rw [List.length_take_of_le (by omega), hglen, List.length_drop,
      show xs.length-(index+amount) = xs.length-amount-index by omega] at hmove
    rw [add32_eq (by omega), sub32_eq (by omega) (by omega)]
    refine (modify_spec hc hs hb hmove ?_).weaken ?_
    · simp only [List.length_append, hvlen]
      omega
    · rintro t ⟨hct, hp, hst⟩
      refine ⟨hct, hp, vacated, by rw [hvlen, hglen], hvraw, ?_⟩
      rwa [without, List.append_assoc]
  · obtain rfl : index = xs.length-amount := not_not.mp hend
    have hnil : xs.drop (xs.length-amount+amount) = [] := List.drop_eq_nil_of_le (by omega)
    refine ⟨hc, .refl held h, gone, hglen, hraw, ?_⟩
    rw [hnil, List.nil_append] at hs
    rwa [without, hnil, List.append_nil]

theorem shrink_spec (hl : Lawful T initial) (ho : Owned T held h v xs) (index amount : ℕ)
    (hle : index+amount ≤ xs.length) :
    Meets (Excuse T.toPlatform h False)
      (fun r => Preserved held h r.2 ∧
        (Owned T held r.2 r.1 (without xs index amount) ∨
          Refused T.refuse h r.2 ∧ Owned T held r.2 r.1 xs))
      (shrink T h v index amount) := by
  have hcount : v.count = xs.length := ho.represents.1
  cases hv : v.storage with
  | none =>
    simp only [shrink, hv]
    have hnil : xs = [] := by
      have hr := ho.represents.2.2
      rwa [hv] at hr
    refine ⟨.refl held h, .inl ?_⟩
    rwa [without, hnil, List.take_nil, List.drop_nil, List.append_nil, ← hnil]
  | some b =>
    simp only [shrink, hv, hcount]
    apply Meets.bind (fatalIf_spec (c := xs.length < amount) (fun hlt => by omega))
    intro _ _
    rw [capacity_eq hl ho.represents, ok_bind]
    refine Meets.ite (fun hroom => ?_) (fun _ => ?_)
    · refine (reduce_spec hl ho hv hle hroom).bind ?_
      rintro ⟨_ | n, t⟩ hg
      · exact ⟨hg.2.2, .inr ⟨hg.1, hg.2.1⟩⟩
      · exact ⟨hg.1, .inl hg.2⟩
    refine (editArrayImpl_spec hl ho).bind ?_
    rintro ⟨w, h₁⟩ ⟨ho₁, hp₁, hsole, -, hsome⟩
    obtain ⟨n, hw⟩ : ∃ n, w.storage = some n :=
      Option.isSome_iff_exists.mp (hsome.trans (by rw [hv]; rfl))
    obtain ⟨spare, hraw, hs₁, hfits, -⟩ := ho₁.room_eq hw
    simp only [hw]
    have hc₁ : Counted (n::held) h₁ := by
      have hown := ho₁.counted
      rwa [hw] at hown
    have hn := hsole n hw
    have hlive := ho₁.represents.2.1
    have hsmall : xs.length < sizeMax := by
      have hlt := hfits.lt hl.itemSize_pos
      rw [List.length_append] at hlt
      omega
    have hmax : sizeMax < 2^32 := by decide
    -- the items to go, between those that stay
    obtain ⟨gone, hglen, hgraw, hdestroy⟩ := doDestroy_eq hl (xs.take index)
      ((xs.drop index).take amount) (xs.drop (index+amount) ++ spare)
      (fun c hm => hlive c (List.mem_of_mem_drop (List.mem_of_mem_take hm)))
    have hcut : xs.take index ++ ((xs.drop index).take amount ++ (xs.drop (index+amount) ++ spare))
        = xs++spare := by
      rw [← List.append_assoc ((xs.drop index).take amount), ← List.drop_drop,
        List.take_append_drop, ← List.append_assoc, List.take_append_drop]
    have hmid : ((xs.drop index).take amount).length = amount := by
      rw [List.length_take, List.length_drop]
      omega
    rw [hcut, List.length_take_of_le (by omega), hmid] at hdestroy
    rw [hmid] at hglen
    have hgonelen : (xs.take index ++ (gone ++ (xs.drop (index+amount) ++ spare))).length =
        (xs++spare).length := by
      rw [← hcut]
      simp only [List.length_append, hglen, hmid]
    refine (modify_spec (f := fun cells => doDestroy T cells index amount) hc₁ hs₁ hn hdestroy
      hgonelen).bind ?_
    rintro h₂ ⟨hc₂, hp₂, hs₂⟩
    refine (moveBackward_spec hl hc₂ hn hs₂ hle hsmall hgraw hglen hlive).bind ?_
    rintro h₃ ⟨hc₃, hp₃, rest, hrlen, hrraw, hs₃⟩
    refine ⟨(hp₁.trans hp₂).trans hp₃, .inl ?_⟩
    refine owned_of_stores hc₃ (without_live _ _ hlive) hs₃ ?_ ?_ (without_length hle).symm
    · refine hfits.mono ?_
      rw [List.length_append, List.length_append, hrlen, without_length hle, List.length_append]
      omega
    · exact fun c hm => (List.mem_append.mp hm).elim (hrraw c) (hraw c)

end Wingray.VectorImpl
