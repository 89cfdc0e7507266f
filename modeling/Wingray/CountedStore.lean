import Mathlib.Tactic

/-!
# Reference-counted allocations

A store of allocations, each with a count and a content. A new allocation gets a
name that was never used before, so a use of a released one is seen. The count is
exact when it is the number of times the allocation's name is held.
-/

set_option autoImplicit false

namespace Wingray.CountedStore

structure Cell (β : Type*) where
  refs : ℤ
  content : β

structure Store (β : Type*) where
  next : ℕ
  cell : ℕ → Option (Cell β)

variable {β : Type*} {held : List ℕ} {s t u : Store β} {b : ℕ} {c d : Cell β}

def empty : Store β := ⟨0, fun _ => none⟩

def put (s : Store β) (b : ℕ) (c : Cell β) : Store β :=
  { s with cell := Function.update s.cell b (some c) }

def erase (s : Store β) (b : ℕ) : Store β :=
  { s with cell := Function.update s.cell b none }

def bump (s : Store β) : Store β := { s with next := s.next+1 }

/-- `refuse` tells which requests fail. -/
def alloc (refuse : ℕ → Bool) (s : Store β) (x : β) : Option ℕ × Store β :=
  if refuse s.next then (none, bump s) else (some s.next, bump (put s s.next ⟨1, x⟩))

def content (s : Store β) (b : ℕ) : Option β := (s.cell b).map Cell.content

@[simp] theorem put_same (s : Store β) (b : ℕ) (c : Cell β) : (put s b c).cell b = some c :=
  Function.update_self ..

theorem put_other {a : ℕ} (h : a ≠ b) : (put s b c).cell a = s.cell a :=
  Function.update_of_ne h ..

@[simp] theorem erase_same (s : Store β) (b : ℕ) : (erase s b).cell b = none :=
  Function.update_self ..

theorem erase_other {a : ℕ} (h : a ≠ b) : (erase s b).cell a = s.cell a :=
  Function.update_of_ne h ..

@[simp] theorem bump_cell (s : Store β) : (bump s).cell = s.cell := rfl

@[simp] theorem put_put (s : Store β) (b : ℕ) (c d : Cell β) : put (put s b c) b d = put s b d := by
  simp [put]

@[simp] theorem erase_put (s : Store β) (b : ℕ) (c : Cell β) : erase (put s b c) b = erase s b := by
  simp [put, erase]

/-- The counts are exact: `held` lists the name of an allocation once for each holder. -/
structure Counted (held : List ℕ) (s : Store β) : Prop where
  refs : ∀ b c, s.cell b = some c → c.refs = held.count b ∧ b ∈ held
  present : ∀ b ∈ held, ∃ c, s.cell b = some c
  fresh : ∀ b, s.next ≤ b → s.cell b = none

/-- What the held allocations contain stays; the store may have seen more requests. -/
structure Preserved (held : List ℕ) (s t : Store β) : Prop where
  kept : ∀ b ∈ held, content t b = content s b
  later : s.next ≤ t.next

theorem Preserved.refl (held : List ℕ) (s : Store β) : Preserved held s s :=
  ⟨fun _ _ => rfl, le_rfl⟩

theorem Preserved.trans (h : Preserved held s t) (h' : Preserved held t u) : Preserved held s u :=
  ⟨fun b hb => (h'.kept b hb).trans (h.kept b hb), h.later.trans h'.later⟩

theorem Preserved.mono {held' : List ℕ} (h : Preserved held s t) (hs : ∀ b ∈ held', b ∈ held) :
    Preserved held' s t :=
  ⟨fun b hb => h.kept b (hs b hb), h.later⟩

/-- One of the requests between two states was refused. -/
def Refused (refuse : ℕ → Bool) (s t : Store β) : Prop :=
  ∃ n, s.next ≤ n ∧ n < t.next ∧ refuse n = true

theorem Refused.later {refuse : ℕ → Bool} (h : Refused refuse t u) (hp : Preserved held s t) :
    Refused refuse s u := by
  obtain ⟨n, hn, hlt, hr⟩ := h
  exact ⟨n, hp.later.trans hn, hlt, hr⟩

theorem refused_bump {refuse : ℕ → Bool} (h : refuse s.next = true) :
    Refused refuse s (bump s) :=
  ⟨s.next, le_rfl, Nat.lt_succ_self _, h⟩

theorem counted_empty : Counted [] (empty : Store β) where
  refs := by simp [empty]
  present := by simp
  fresh := fun _ _ => rfl

theorem Counted.perm {held' : List ℕ} (h : Counted held s) (hp : held.Perm held') :
    Counted held' s where
  refs := by
    intro b c hc
    rw [← hp.count_eq, ← hp.mem_iff]
    exact h.refs b c hc
  present := fun b hb => h.present b (hp.mem_iff.mpr hb)
  fresh := h.fresh

theorem Counted.bump (h : Counted held s) : Counted held (bump s) where
  refs := h.refs
  present := h.present
  fresh := fun b hb => h.fresh b ((Nat.le_succ _).trans hb)

theorem Counted.unheld (h : Counted held s) : s.next ∉ held := by
  intro hm
  obtain ⟨c, hc⟩ := h.present _ hm
  rw [h.fresh _ le_rfl] at hc
  cases hc

theorem Counted.lt_next (h : Counted held s) (hb : s.cell b = some c) : b < s.next := by
  by_contra hn
  rw [h.fresh b (not_lt.mp hn)] at hb
  cases hb

theorem Counted.only (h : Counted (b::held) s) (hc : s.cell b = some c) :
    c.refs = 1 ↔ b ∉ held := by
  have hr := (h.refs b c hc).1
  rw [List.count_cons_self] at hr
  rw [hr, ← List.count_eq_zero]
  omega

theorem Counted.write (h : Counted held s) (hc : s.cell b = some c) (hd : d.refs = c.refs) :
    Counted held (put s b d) where
  refs := by
    intro a e he
    by_cases hab : a = b
    · subst hab
      obtain rfl : d = e := by simpa using he
      rw [hd]
      exact h.refs a c hc
    · rw [put_other hab] at he
      exact h.refs a e he
  present := by
    intro a ha
    by_cases hab : a = b
    · exact ⟨d, by rw [hab, put_same]⟩
    · rw [put_other hab]
      exact h.present a ha
  fresh := by
    intro a ha
    have hn := h.lt_next hc
    change s.next ≤ a at ha
    rw [put_other (by omega)]
    exact h.fresh a ha

theorem preserved_bump (held : List ℕ) (s : Store β) : Preserved held s (bump s) :=
  ⟨fun _ _ => rfl, Nat.le_succ _⟩

theorem preserved_put (hb : b ∉ held) : Preserved held s (put s b c) := by
  refine ⟨fun a ha => ?_, le_rfl⟩
  have hab : a ≠ b := fun he => hb (he ▸ ha)
  simp only [content, put_other hab]

theorem preserved_recount (hc : s.cell b = some c) (hd : d.content = c.content) :
    Preserved held s (put s b d) := by
  refine ⟨fun a _ => ?_, le_rfl⟩
  by_cases hab : a = b
  · simp [content, hab, hc, hd]
  · simp only [content, put_other hab]

theorem preserved_erase (hb : b ∉ held) : Preserved held s (erase s b) := by
  refine ⟨fun a ha => ?_, le_rfl⟩
  have hab : a ≠ b := fun he => hb (he ▸ ha)
  simp only [content, erase_other hab]

theorem Counted.acquire (h : Counted held s) (hc : s.cell b = some c) (hd : d.refs = c.refs+1) :
    Counted (b::held) (put s b d) where
  refs := by
    intro a e he
    by_cases hab : a = b
    · subst hab
      obtain rfl : d = e := by simpa using he
      rw [hd, (h.refs a c hc).1, List.count_cons_self]
      exact ⟨by push_cast; rfl, List.mem_cons_self⟩
    · rw [put_other hab] at he
      rw [List.count_cons_of_ne (Ne.symm hab)]
      exact ⟨(h.refs a e he).1, List.mem_cons_of_mem _ (h.refs a e he).2⟩
  present := by
    intro a ha
    by_cases hab : a = b
    · exact ⟨d, by rw [hab, put_same]⟩
    · rw [put_other hab]
      exact h.present a ((List.mem_cons.mp ha).resolve_left hab)
  fresh := by
    intro a ha
    have hn := h.lt_next hc
    change s.next ≤ a at ha
    rw [put_other (by omega)]
    exact h.fresh a ha

theorem Counted.drop (h : Counted (b::held) s) (hc : s.cell b = some c) (h1 : c.refs ≠ 1)
    (hd : d.refs = c.refs-1) : Counted held (put s b d) where
  refs := by
    intro a e he
    by_cases hab : a = b
    · subst hab
      obtain rfl : d = e := by simpa using he
      have hr := (h.refs a c hc).1
      rw [List.count_cons_self] at hr
      refine ⟨by rw [hd, hr]; push_cast; ring, ?_⟩
      by_contra hn
      exact h1 ((h.only hc).mpr hn)
    · rw [put_other hab] at he
      have hr := h.refs a e he
      rw [List.count_cons_of_ne (Ne.symm hab)] at hr
      exact ⟨hr.1, (List.mem_cons.mp hr.2).resolve_left hab⟩
  present := by
    intro a ha
    by_cases hab : a = b
    · exact ⟨d, by rw [hab, put_same]⟩
    · rw [put_other hab]
      exact h.present a (List.mem_cons_of_mem _ ha)
  fresh := by
    intro a ha
    have hn := h.lt_next hc
    change s.next ≤ a at ha
    rw [put_other (by omega)]
    exact h.fresh a ha

theorem Counted.erase (h : Counted (b::held) s) (hb : b ∉ held) : Counted held (erase s b) where
  refs := by
    intro a e he
    have hab : a ≠ b := by
      rintro rfl
      simp at he
    rw [erase_other hab] at he
    have hr := h.refs a e he
    rw [List.count_cons_of_ne (Ne.symm hab)] at hr
    exact ⟨hr.1, (List.mem_cons.mp hr.2).resolve_left hab⟩
  present := by
    intro a ha
    have hab : a ≠ b := fun he => hb (he ▸ ha)
    rw [erase_other hab]
    exact h.present a (List.mem_cons_of_mem _ ha)
  fresh := by
    intro a ha
    by_cases hab : a = b
    · rw [hab, erase_same]
    · rw [erase_other hab]
      exact h.fresh a ha

theorem Counted.insert (h : Counted held s) (x : β) :
    Counted (s.next::held) (CountedStore.bump (put s s.next ⟨1, x⟩)) where
  refs := by
    intro a e he
    by_cases hab : a = s.next
    · subst hab
      obtain rfl : Cell.mk 1 x = e := by simpa using he
      rw [List.count_cons_self, List.count_eq_zero.mpr h.unheld]
      exact ⟨rfl, List.mem_cons_self⟩
    · rw [bump_cell, put_other hab] at he
      rw [List.count_cons_of_ne (Ne.symm hab)]
      exact ⟨(h.refs a e he).1, List.mem_cons_of_mem _ (h.refs a e he).2⟩
  present := by
    intro a ha
    by_cases hab : a = s.next
    · exact ⟨⟨1, x⟩, by rw [hab, bump_cell, put_same]⟩
    · rw [bump_cell, put_other hab]
      exact h.present a ((List.mem_cons.mp ha).resolve_left hab)
  fresh := by
    intro a ha
    change s.next+1 ≤ a at ha
    rw [bump_cell, put_other (by omega)]
    exact h.fresh a (by omega)

theorem Counted.alloc {refuse : ℕ → Bool} (h : Counted held s) (x : β) :
    (refuse s.next = true ∧ alloc refuse s x = (none, CountedStore.bump s) ∧
      Counted held (CountedStore.bump s)) ∨
    ∃ t, refuse s.next = false ∧ alloc refuse s x = (some s.next, t) ∧
      t.cell s.next = some ⟨1, x⟩ ∧
      Counted (s.next::held) t ∧ s.next ∉ held ∧ Preserved held s t := by
  cases hr : refuse s.next with
  | true => exact .inl ⟨rfl, by simp [CountedStore.alloc, hr], h.bump⟩
  | false =>
    refine .inr ⟨_, rfl, by simp only [CountedStore.alloc, hr]; rfl, ?_, h.insert x, h.unheld, ?_⟩
    · rw [bump_cell, put_same]
    · exact (preserved_put h.unheld).trans (preserved_bump held _)

end Wingray.CountedStore
