import Wingray.CountedStore
import Wingray.OutcomeLogic

/-!
# Reference-counted buffers

A buffer has a count, a size in bytes and room for items. A slot of the room is
empty while it is raw memory. `realloc` gives a new buffer and takes the old one
away, as the C standard has it, and any request for memory may be refused. The
calls run one after another here.
-/

set_option autoImplicit false

namespace Wingray.SharedBuffer
open CountedStore OutcomeLogic

inductive Stop where
  /-- a size check of the source fails, which ends the process -/
  | overflow
  /-- the check that a copy could be made fails, which ends the process: the request
  with this number was refused -/
  | exhausted (request : ℕ)
  /-- released or foreign memory is used, or an object is misused -/
  | fault
  deriving DecidableEq, Repr

/-- The header's size, the size of an item, and which requests for memory fail. -/
structure Platform where
  header : ℕ
  itemSize : ℕ
  refuse : ℕ → Bool

structure Payload (α : Type) where
  size : ℕ
  data : List (Option α)

abbrev Memory (α : Type) := Store (Payload α)

def sizeMax : ℕ := 2^32-1

variable {α : Type} (y : Platform)

def raw (size : ℕ) : Payload α := ⟨size, List.replicate (size/y.itemSize) none⟩

def resized (x : Payload α) (size : ℕ) : Payload α :=
  ⟨size, x.data.take (size/y.itemSize) ++
    List.replicate (size/y.itemSize-x.data.length) none⟩

/-- A check of the source that ends the process. -/
def fatalIf (c : Prop) [Decidable c] : Except Stop Unit :=
  if c then .error .overflow else .ok ()

def cellAt (h : Memory α) (b : ℕ) : Except Stop (Cell (Payload α)) :=
  match h.cell b with
  | none => .error .fault
  | some c => .ok c

def alloc (h : Memory α) (size : ℕ) : Except Stop (Option ℕ × Memory α) := do
  fatalIf (sizeMax-y.header ≤ size)
  return CountedStore.alloc y.refuse h (raw y size)

def dealloc (h : Memory α) (b : ℕ) : Except Stop (ℤ × Memory α) := do
  let c ← cellAt h b
  if c.refs ≠ 0 then return (-1, h)
  return (0, erase h b)

def acquire (h : Memory α) (b : ℕ) : Except Stop (Memory α) := do
  let c ← cellAt h b
  return put h b { c with refs := c.refs+1 }

/-- `keep` is the flag that leaves the storage allocated. -/
def release (h : Memory α) (b : ℕ) (keep : Bool) : Except Stop (ℤ × Memory α) := do
  let c ← cellAt h b
  if c.refs = 1 then
    let h := put h b { c with refs := 0 }
    return (1, if keep then h else erase h b)
  -- the decrement sees the count that was just compared
  return (c.refs, put h b { c with refs := c.refs-1 })

def attemptEdit (h : Memory α) (b : ℕ) : Except Stop (Option ℕ) := do
  let c ← cellAt h b
  return if c.refs = 1 then some b else none

/-- The first `size` bytes of one buffer over those of another. -/
def memcpy (h : Memory α) (target source size : ℕ) : Except Stop (Memory α) := do
  let d ← cellAt h target
  let c ← cellAt h source
  if size ≤ d.content.size ∧ size ≤ c.content.size then
    let k := size/y.itemSize
    let data := c.content.data.take k ++ d.content.data.drop k
    return put h target { d with content := { d.content with data := data } }
  throw .fault

def edit (h : Memory α) (b : ℕ) : Except Stop (Option ℕ × Memory α) := do
  let c ← cellAt h b
  if c.refs = 1 then return (some b, h)
  let (sb, h) ← alloc y h c.content.size
  match sb with
  | none => return (none, h)
  | some n =>
    let h ← memcpy y h n b c.content.size
    let (_, h) ← release h b false
    return (some n, h)

def copyResize (h : Memory α) (b newSize : ℕ) : Except Stop (Option ℕ × Memory α) := do
  let c ← cellAt h b
  let (sb, h) ← alloc y h newSize
  match sb with
  | none => return (none, h)
  | some n =>
    let h ← memcpy y h n b (min newSize c.content.size)
    let (_, h) ← release h b false
    return (some n, h)

def editResize (h : Memory α) (b newSize : ℕ) : Except Stop (Option ℕ × Memory α) := do
  let c ← cellAt h b
  if c.refs = 1 then
    if c.content.size = newSize then return (some b, h)
    fatalIf (sizeMax-y.header ≤ newSize)
    if y.refuse h.next then copyResize y (bump h) b newSize
    else
      let n := h.next
      return (some n, bump (put (erase h b) n ⟨c.refs, resized y c.content newSize⟩))
  else copyResize y h b newSize

def reset (h : Memory α) (b newSize : ℕ) : Except Stop (Option ℕ × Memory α) := do
  let (sb, h) ← alloc y h newSize
  match sb with
  | none => return (none, h)
  | some n =>
    let (_, h) ← release h b false
    return (some n, h)

/-- The stops of a call from the memory `h` that are not misuse: a size beyond `limit`,
or a request of its own that was refused. -/
def Excuse (h : Memory α) (limit : Prop) : Stop → Prop
  | .overflow => limit
  | .exhausted n => h.next ≤ n ∧ y.refuse n = true
  | .fault => False

theorem Excuse.mono {h : Memory α} {p q : Prop} (hpq : p → q) (e : Stop) :
    Excuse y h p e → Excuse y h q e := by
  cases e with
  | overflow => exact hpq
  | exhausted n => exact id
  | fault => exact id

theorem Excuse.later {held : List ℕ} {h t : Memory α} {p : Prop} (hp : Preserved held h t)
    (e : Stop) : Excuse y t p e → Excuse y h p e := by
  cases e with
  | overflow => exact id
  | exhausted n => exact fun he => ⟨hp.later.trans he.1, he.2⟩
  | fault => exact id

/-- A holder's request for a buffer with the content `x`: refused with nothing changed,
or granted with `after` the names that are held then. -/
def Granted (held kept after : List ℕ) (h : Memory α) (x : Payload α)
    (r : Option ℕ × Memory α) : Prop :=
  match r.1 with
  | none => Refused y.refuse h r.2 ∧ Counted held r.2 ∧ Preserved held h r.2
  | some n => n ∉ kept ∧ content r.2 n = some x ∧ Counted (n::after) r.2 ∧ Preserved kept h r.2

variable {y} {held : List ℕ} {h : Memory α} {b n : ℕ} {E : Stop → Prop} {x : Payload α}

theorem fatalIf_spec {c : Prop} [Decidable c] (he : c → E .overflow) :
    Meets E (fun _ => ¬c) (fatalIf c) :=
  Meets.ite he (fun hc => hc)

theorem cellAt_some {c : Cell (Payload α)} (hc : h.cell b = some c) : cellAt h b = .ok c := by
  simp only [cellAt, hc]

theorem content_cell (hx : content h b = some x) :
    ∃ r, h.cell b = some ⟨r, x⟩ := by
  obtain ⟨c, hc, rfl⟩ := Option.map_eq_some_iff.mp hx
  exact ⟨c.refs, hc⟩

theorem alloc_spec (hh : Counted held h) (size : ℕ) :
    Meets (Excuse y h (sizeMax-y.header ≤ size))
      (fun r => Granted y held held held h (raw y size) r ∧
        (r.1 = none → y.refuse h.next = true)) (alloc y h size) := by
  rw [alloc]
  apply Meets.bind (fatalIf_spec (c := sizeMax-y.header ≤ size) id)
  intro _ _
  rw [meets_pure]
  rcases hh.alloc (raw y size) with ⟨hr, he, hb⟩ | ⟨t, -, he, hcell, ht, hn, hp⟩
  · rw [he]
    exact ⟨⟨refused_bump hr, hb, preserved_bump held h⟩, fun _ => hr⟩
  · rw [he]
    exact ⟨⟨hn, by rw [content, hcell]; rfl, ht, hp⟩, fun hn => by cases hn⟩

theorem acquire_spec (hh : Counted held h) (hb : b ∈ held) :
    Meets E (fun t => Counted (b::held) t ∧ Preserved held h t) (acquire h b) := by
  obtain ⟨c, hc⟩ := hh.present b hb
  rw [acquire, cellAt_some hc]
  exact ⟨hh.acquire hc rfl, preserved_recount hc rfl⟩

theorem release_spec (hh : Counted (b::held) h) :
    Meets E (fun r => Counted held r.2 ∧ Preserved held h r.2 ∧ (r.1 = 1 ↔ b ∉ held))
      (release h b false) := by
  obtain ⟨c, hc⟩ := hh.present b List.mem_cons_self
  rw [release, cellAt_some hc]
  by_cases h1 : c.refs = 1
  · have hb := (hh.only hc).mp h1
    rw [ok_bind, if_pos h1, meets_pure]
    simp only [Bool.false_eq_true, if_false, erase_put]
    exact ⟨hh.erase hb, preserved_erase hb, iff_of_true trivial hb⟩
  · rw [ok_bind, if_neg h1, meets_pure]
    refine ⟨hh.drop hc h1 rfl, preserved_recount hc rfl, iff_of_false h1 ?_⟩
    exact fun hb => h1 ((hh.only hc).mpr hb)

theorem attemptEdit_spec (hh : Counted (b::held) h) :
    Meets E (fun r => r = if b ∈ held then none else some b) (attemptEdit h b) := by
  obtain ⟨c, hc⟩ := hh.present b List.mem_cons_self
  rw [attemptEdit, cellAt_some hc]
  by_cases hb : b ∈ held
  · have h1 : c.refs ≠ 1 := fun h1 => (hh.only hc).mp h1 hb
    simp [h1, hb]
  · have h1 : c.refs = 1 := (hh.only hc).mpr hb
    simp [h1, hb]

theorem memcpy_spec {d c : Payload α} {size : ℕ} (hh : Counted (n::held) h) (hn : n ∉ held)
    (hd : content h n = some d) (hc : content h b = some c) (hsd : size ≤ d.size)
    (hsc : size ≤ c.size) :
    Meets E (fun t => Counted (n::held) t ∧ Preserved held h t ∧ content t n =
      some ⟨d.size, c.data.take (size/y.itemSize) ++ d.data.drop (size/y.itemSize)⟩)
      (memcpy y h n b size) := by
  obtain ⟨r, hcell⟩ := content_cell hd
  obtain ⟨r', hcell'⟩ := content_cell hc
  rw [memcpy, cellAt_some hcell, ok_bind, cellAt_some hcell', ok_bind, if_pos ⟨hsd, hsc⟩]
  refine ⟨hh.write hcell rfl, preserved_put hn, ?_⟩
  simp only [content, put_same, Option.map_some]

theorem copyResize_spec (hh : Counted (b::held) h) (hx : content h b = some x)
    (hlen : x.data.length = x.size/y.itemSize) (newSize : ℕ) :
    Meets (Excuse y h (sizeMax-y.header ≤ newSize))
      (Granted y (b::held) held held h (resized y x newSize)) (copyResize y h b newSize) := by
  obtain ⟨r, hcell⟩ := content_cell hx
  rw [copyResize, cellAt_some hcell, ok_bind]
  refine (alloc_spec hh newSize).bind ?_
  rintro ⟨_ | n, h₁⟩ ⟨hg, -⟩
  · exact hg
  obtain ⟨hn, hraw, hc₁, hp₁⟩ := hg
  have hx₁ : content h₁ b = some x := (hp₁.kept b List.mem_cons_self).trans hx
  have hcopy := memcpy_spec (y := y) (E := Excuse y h (sizeMax-y.header ≤ newSize)) hc₁ hn hraw hx₁
    (min_le_left newSize x.size) (min_le_right _ _)
  refine hcopy.bind ?_
  rintro h₂ ⟨hc₂, hp₂, hn₂⟩
  refine (release_spec (hc₂.perm (List.Perm.swap b n held))).bind ?_
  rintro ⟨prev, h₃⟩ ⟨hc₃, hp₃, -⟩
  refine ⟨fun hm => hn (List.mem_cons_of_mem _ hm), ?_, hc₃, ?_⟩
  · rw [hp₃.kept n List.mem_cons_self, hn₂]
    simp only [raw, resized, Option.some.injEq, Payload.mk.injEq, true_and, List.drop_replicate]
    rcases le_total newSize x.size with hle | hle
    · have hk := Nat.div_le_div_right (c := y.itemSize) hle
      rw [min_eq_left hle, Nat.sub_self, Nat.sub_eq_zero_of_le (by omega)]
    · have hk := Nat.div_le_div_right (c := y.itemSize) hle
      rw [min_eq_right hle, ← hlen, List.take_of_length_le le_rfl,
        List.take_of_length_le (by omega)]
  · have hold := (hp₁.trans hp₂).mono (fun a ha => List.mem_cons_of_mem b ha)
    exact hold.trans (hp₃.mono (fun a ha => List.mem_cons_of_mem n ha))

theorem editResize_spec (hh : Counted (b::held) h) (hx : content h b = some x)
    (hlen : x.data.length = x.size/y.itemSize) (newSize : ℕ) :
    Meets (Excuse y h (sizeMax-y.header ≤ newSize))
      (Granted y (b::held) held held h (resized y x newSize)) (editResize y h b newSize) := by
  obtain ⟨r, hcell⟩ := content_cell hx
  rw [editResize, cellAt_some hcell, ok_bind]
  refine Meets.ite ?_ (fun _ => copyResize_spec hh hx hlen newSize)
  intro h1
  have hb := (hh.only hcell).mp h1
  refine Meets.ite ?_ (fun _ => ?_)
  · rintro rfl
    refine ⟨hb, ?_, hh, .refl held h⟩
    simp [resized, hx, ← hlen]
  apply Meets.bind (fatalIf_spec (c := sizeMax-y.header ≤ newSize) id)
  intro _ _
  refine Meets.ite ?_ ?_
  · intro hr
    have hbump := preserved_bump (b::held) h
    have hcopy := copyResize_spec (y := y) hh.bump (x := x) hx hlen newSize
    refine hcopy.mono (Excuse.later y hbump) ?_
    rintro ⟨_ | n, h₁⟩ hg
    · exact ⟨hg.1.later hbump, hg.2.1, hbump.trans hg.2.2⟩
    · exact ⟨hg.1, hg.2.1, hg.2.2.1, (preserved_bump held h).trans hg.2.2.2⟩
  · intro _
    have he := hh.erase hb
    have hin := he.insert (resized y x newSize)
    have hn : h.next ∉ held := he.unheld
    obtain rfl : r = 1 := h1
    refine ⟨hn, ?_, hin, ?_⟩
    swap
    · exact ((preserved_erase hb).trans (preserved_put hn)).trans (preserved_bump held _)
    simp only [content, bump_cell, put_same, Option.map_some]

theorem alloc_small (size : ℕ) :
    Meets (fun _ => True) (fun _ => size < sizeMax-y.header) (alloc y h size) := by
  rw [alloc]
  apply Meets.bind (fatalIf_spec (c := sizeMax-y.header ≤ size) (fun _ => trivial))
  exact fun _ hs => not_le.mp hs

theorem copyResize_small (b newSize : ℕ) :
    Meets (fun _ => True) (fun _ => newSize < sizeMax-y.header) (copyResize y h b newSize) := by
  rw [copyResize]
  refine Meets.bind (Q := fun _ => True) (by rw [cellAt]; split <;> trivial) ?_
  intro c _
  refine (alloc_small newSize).bind ?_
  rintro ⟨_ | n, h₁⟩ hs
  · exact hs
  refine Meets.bind (Q := fun _ => True) ?_ ?_
  · cases memcpy y h₁ n b (min newSize c.content.size) <;> trivial
  intro h₂ _
  refine Meets.bind (Q := fun _ => True) ?_ (fun _ _ => hs)
  cases release h₂ b false <;> trivial

theorem editResize_small (hx : content h b = some x) (newSize : ℕ) :
    Meets (fun _ => True) (fun _ => newSize = x.size ∨ newSize < sizeMax-y.header)
      (editResize y h b newSize) := by
  obtain ⟨r, hcell⟩ := content_cell hx
  rw [editResize, cellAt_some hcell, ok_bind]
  have hcopy : ∀ h₁ : Memory α, Meets (fun _ => True)
      (fun _ => newSize = x.size ∨ newSize < sizeMax-y.header) (copyResize y h₁ b newSize) :=
    fun h₁ => (copyResize_small b newSize).weaken (fun _ => .inr)
  refine Meets.ite (fun _ => ?_) (fun _ => hcopy h)
  refine Meets.ite (fun he => .inl he.symm) (fun _ => ?_)
  apply Meets.bind (fatalIf_spec (c := sizeMax-y.header ≤ newSize) (fun _ => trivial))
  intro _ hs
  exact Meets.ite (fun _ => hcopy _) (fun _ => .inr (not_le.mp hs))

theorem edit_spec (hh : Counted (b::held) h) (hx : content h b = some x)
    (hlen : x.data.length = x.size/y.itemSize) (hsize : x.size < sizeMax-y.header) :
    Meets (Excuse y h False) (Granted y (b::held) held held h x) (edit y h b) := by
  obtain ⟨r, hcell⟩ := content_cell hx
  have heq : edit y h b = if r = 1 then .ok (some b, h) else copyResize y h b x.size := by
    rw [edit, copyResize, cellAt_some hcell, ok_bind, ok_bind, min_self]
    rfl
  rw [heq]
  refine Meets.ite (fun h1 => ⟨(hh.only hcell).mp h1, hx, hh, .refl held h⟩) (fun _ => ?_)
  have hres : resized y x x.size = x := by simp [resized, ← hlen]
  have hcopy := copyResize_spec (y := y) hh hx hlen x.size
  rw [hres] at hcopy
  exact hcopy.mono (Excuse.mono y (fun hle => absurd hle (not_le.mpr hsize))) (fun _ hg => hg)

theorem reset_spec (hh : Counted (b::held) h) (newSize : ℕ) :
    Meets (Excuse y h (sizeMax-y.header ≤ newSize))
      (Granted y (b::held) held held h (raw y newSize)) (reset y h b newSize) := by
  rw [reset]
  refine (alloc_spec hh newSize).bind ?_
  rintro ⟨_ | n, h₁⟩ ⟨hg, -⟩
  · exact hg
  obtain ⟨hn, hraw, hc₁, hp₁⟩ := hg
  refine (release_spec (hc₁.perm (List.Perm.swap b n held))).bind ?_
  rintro ⟨prev, h₂⟩ ⟨hc₂, hp₂, -⟩
  refine ⟨fun hm => hn (List.mem_cons_of_mem _ hm), ?_, hc₂, ?_⟩
  · rw [hp₂.kept n List.mem_cons_self, hraw]
  · exact (hp₁.mono (fun a ha => List.mem_cons_of_mem b ha)).trans
      (hp₂.mono (fun a ha => List.mem_cons_of_mem n ha))

end Wingray.SharedBuffer
