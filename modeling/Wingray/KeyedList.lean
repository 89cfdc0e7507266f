import Mathlib.Tactic

/-!
# Lists in strict order as finite maps

A three-way comparison sorts elements into classes. A list in strict order has at
most one element of each class, so it is a map from the classes to elements.
-/

set_option autoImplicit false

namespace Wingray.KeyedList

variable {α : Type*} (cmp : α → α → ℤ)

structure ThreeWay : Prop where
  swap : ∀ a b, cmp a b ≤ 0 ↔ 0 ≤ cmp b a
  trans : ∀ a b c, cmp a b ≤ 0 → cmp b c ≤ 0 → cmp a c ≤ 0

def Strict (l : List α) : Prop := l.Pairwise (fun a b => cmp a b < 0)

def lookup (z : α) (l : List α) : Option α := l.find? (fun y => cmp y z = 0)

def upsert (x : α) : List α → List α
  | [] => [x]
  | y::l =>
    if cmp y x < 0 then y :: upsert x l
    else if cmp y x = 0 then x :: l
    else x :: y :: l

def discard (z : α) (l : List α) : List α := l.filter (fun y => cmp y z ≠ 0)

def upsertAll (l ys : List α) : List α := ys.foldl (fun l y => upsert cmp y l) l

variable {cmp} {x y z : α} {l l' ys : List α}

theorem mem_upsert (hy : y ∈ upsert cmp x l) : y = x ∨ y ∈ l := by
  induction l with
  | nil => exact .inl (List.mem_singleton.mp hy)
  | cons a l ih =>
    rw [upsert] at hy
    split_ifs at hy
    · rcases List.mem_cons.mp hy with rfl | hy
      · exact .inr List.mem_cons_self
      · exact (ih hy).imp id (List.mem_cons_of_mem a)
    · exact (List.mem_cons.mp hy).imp id (List.mem_cons_of_mem a)
    · exact List.mem_cons.mp hy

theorem lookup_cons (a : α) :
    lookup cmp z (a::l) = if cmp a z = 0 then some a else lookup cmp z l := by
  rw [lookup, List.find?_cons]
  split <;> simp_all [lookup]

theorem lookup_none (h : ∀ y ∈ l, cmp y z ≠ 0) : lookup cmp z l = none := by
  rw [lookup, List.find?_eq_none]
  intro y hy
  simpa using h y hy

theorem mem_of_lookup (h : lookup cmp z l = some y) : y ∈ l ∧ cmp y z = 0 :=
  ⟨List.mem_of_find?_eq_some h, by simpa using List.find?_some h⟩

theorem lookup_append (l l' : List α) :
    lookup cmp z (l ++ l') = (lookup cmp z l).or (lookup cmp z l') :=
  List.find?_append

theorem upsert_at_gap {k : ℕ} (hbelow : ∀ y ∈ l.take k, cmp y x < 0)
    (habove : ∀ y ∈ l.drop k, 0 < cmp y x) :
    upsert cmp x l = l.take k ++ ([x] ++ l.drop k) := by
  induction l generalizing k with
  | nil => simp [upsert]
  | cons a l ih =>
    cases k with
    | zero =>
      have ha := habove a List.mem_cons_self
      rw [upsert, if_neg (by omega), if_neg (by omega)]
      rfl
    | succ k =>
      have ha := hbelow a List.mem_cons_self
      rw [upsert, if_pos ha, ih (fun y hy => hbelow y (List.mem_cons_of_mem a hy)) habove]
      rfl

theorem strict_append (hl : Strict cmp l) (hl' : Strict cmp l')
    (h : ∀ a ∈ l, ∀ b ∈ l', cmp a b < 0) : Strict cmp (l ++ l') :=
  List.pairwise_append.mpr ⟨hl, hl', h⟩

theorem discard_absent (h : ∀ y ∈ l, cmp y z ≠ 0) : discard cmp z l = l := by
  rw [discard, List.filter_eq_self]
  simpa using h

theorem discard_strict (hs : Strict cmp l) : Strict cmp (discard cmp z l) :=
  hs.sublist List.filter_sublist

variable (ht : ThreeWay cmp)
include ht

theorem ThreeWay.flip (a b : α) : cmp a b < 0 ↔ 0 < cmp b a := by
  have h := ht.swap b a
  constructor
  · intro hlt
    by_contra hn
    exact absurd (h.mp (not_lt.mp hn)) (not_le.mpr hlt)
  · intro hlt
    by_contra hn
    exact absurd (h.mpr (not_lt.mp hn)) (not_le.mpr hlt)

theorem ThreeWay.same (a b : α) : cmp a b = 0 ↔ cmp b a = 0 := by
  have h₁ := ht.flip a b
  have h₂ := ht.flip b a
  omega

theorem ThreeWay.refl (a : α) : cmp a a = 0 := by
  have h := ht.flip a a
  omega

theorem ThreeWay.lt_of_lt_of_le {a b c : α} (hab : cmp a b < 0) (hbc : cmp b c ≤ 0) :
    cmp a c < 0 := by
  have hle := ht.trans a b c hab.le hbc
  by_contra hn
  have hca : cmp c a ≤ 0 := (ht.swap c a).mpr (not_lt.mp hn)
  have hba := ht.trans b c a hbc hca
  have hflip := (ht.flip a b).mp hab
  omega

theorem ThreeWay.lt_of_le_of_lt {a b c : α} (hab : cmp a b ≤ 0) (hbc : cmp b c < 0) :
    cmp a c < 0 := by
  have hle := ht.trans a b c hab hbc.le
  by_contra hn
  have hca : cmp c a ≤ 0 := (ht.swap c a).mpr (not_lt.mp hn)
  have hcb := ht.trans c a b hca hab
  have hflip := (ht.flip b c).mp hbc
  omega

theorem ThreeWay.congr {a b : α} (hab : cmp a b = 0) (c : α) : cmp a c = 0 ↔ cmp b c = 0 := by
  have hba := (ht.same a b).mp hab
  constructor
  · intro hac
    have hle := ht.trans b a c hba.le hac.le
    have hca := ht.trans c a b ((ht.same a c).mp hac).le hab.le
    have hflip := ht.flip b c
    omega
  · intro hbc
    have hle := ht.trans a b c hab.le hbc.le
    have hcb := ht.trans c b a ((ht.same b c).mp hbc).le hba.le
    have hflip := ht.flip a c
    omega

theorem upsert_strict (hs : Strict cmp l) : Strict cmp (upsert cmp x l) := by
  induction l with
  | nil => exact List.pairwise_singleton _ _
  | cons a l ih =>
    obtain ⟨ha, hl⟩ := List.pairwise_cons.mp hs
    rw [upsert]
    split_ifs with hlt heq
    · refine List.pairwise_cons.mpr ⟨?_, ih hl⟩
      intro b hb
      rcases mem_upsert hb with rfl | hb
      · exact hlt
      · exact ha b hb
    · refine List.pairwise_cons.mpr ⟨?_, hl⟩
      intro b hb
      exact ht.lt_of_le_of_lt ((ht.same a x).mp heq).le (ha b hb)
    · have hxa : cmp x a < 0 := (ht.flip x a).mpr (by omega)
      refine List.pairwise_cons.mpr ⟨?_, hs⟩
      intro b hb
      rcases List.mem_cons.mp hb with rfl | hb
      · exact hxa
      · exact ht.lt_of_lt_of_le hxa (ha b hb).le

theorem lookup_upsert (hs : Strict cmp l) :
    lookup cmp z (upsert cmp x l) = if cmp x z = 0 then some x else lookup cmp z l := by
  induction l with
  | nil => rw [upsert, lookup_cons]
  | cons a l ih =>
    rw [upsert]
    rcases lt_trichotomy (cmp a x) 0 with hlt | heq | hgt
    · rw [if_pos hlt, lookup_cons, ih (List.pairwise_cons.mp hs).2, lookup_cons]
      by_cases haz : cmp a z = 0
      · have hxz : cmp x z ≠ 0 := by
          intro hxz
          have hax := (ht.congr ((ht.same a z).mp haz) x).mp
          have hzx := (ht.same x z).mp hxz
          have hsame := (ht.congr haz x).mpr hzx
          omega
        rw [if_pos haz, if_neg hxz, if_pos haz]
      · rw [if_neg haz, if_neg haz]
    · rw [if_neg (by omega), if_pos heq, lookup_cons, lookup_cons]
      simp only [ht.congr heq z]
      split_ifs <;> rfl
    · rw [if_neg (by omega), if_neg (by omega), lookup_cons]

theorem lookup_discard (w : α) :
    lookup cmp w (discard cmp z l) = if cmp z w = 0 then none else lookup cmp w l := by
  induction l with
  | nil => simp [discard, lookup]
  | cons a l ih =>
    rw [discard, List.filter_cons, ← discard, lookup_cons]
    by_cases haz : cmp a z = 0
    · simp only [haz, ne_eq, not_true_eq_false, decide_false, Bool.false_eq_true, if_false, ih]
      have hsame := ht.congr haz w
      split_ifs <;> tauto
    · simp only [haz, ne_eq, not_false_eq_true, decide_true, if_true, lookup_cons, ih]
      by_cases haw : cmp a w = 0
      · have hzw : cmp z w ≠ 0 := by
          intro hzw
          exact haz ((ht.congr haw z).mpr ((ht.same z w).mp hzw))
        rw [if_pos haw, if_neg hzw, if_pos haw]
      · rw [if_neg haw, if_neg haw]

theorem split_at_entry (hs : Strict cmp l) {m : ℕ} (hm : m < l.length) (hz : cmp l[m] z = 0) :
    (∀ y ∈ l.take m, cmp y z < 0) ∧ ∀ y ∈ l.drop m, 0 ≤ cmp y z := by
  have hdrop : l.drop m = l[m] :: l.drop (m+1) := List.drop_eq_getElem_cons hm
  rw [Strict, ← List.take_append_drop m l, hdrop] at hs
  obtain ⟨-, hafter, hbefore⟩ := List.pairwise_append.mp hs
  obtain ⟨habove, -⟩ := List.pairwise_cons.mp hafter
  refine ⟨fun y hy => ?_, fun y hy => ?_⟩
  · exact ht.lt_of_lt_of_le (hbefore y hy l[m] List.mem_cons_self) hz.le
  · rw [hdrop] at hy
    rcases List.mem_cons.mp hy with rfl | hy
    · exact hz.ge
    · have hback : cmp z l[m] ≤ 0 := ((ht.same _ _).mp hz).le
      exact ((ht.flip z y).mp (ht.lt_of_le_of_lt hback (habove y hy))).le

theorem upsert_at_entry (hs : Strict cmp l) {m : ℕ} (hm : m < l.length)
    (hx : cmp l[m] x = 0) : upsert cmp x l = l.set m x := by
  induction l generalizing m with
  | nil => simp at hm
  | cons a l ih =>
    obtain ⟨ha, hl⟩ := List.pairwise_cons.mp hs
    cases m with
    | zero =>
      have hax : cmp a x = 0 := hx
      rw [upsert, if_neg (by omega), if_pos hax]
      rfl
    | succ m =>
      have hm' : m < l.length := by simpa using hm
      have hmx : cmp l[m] x = 0 := by simpa using hx
      have hax := ht.lt_of_lt_of_le (ha _ (List.getElem_mem hm')) hmx.le
      rw [upsert, if_pos hax, ih hl hm' hmx]
      rfl

theorem discard_at_entry (hs : Strict cmp l) {m : ℕ} (hm : m < l.length)
    (hz : cmp l[m] z = 0) : discard cmp z l = l.take m ++ l.drop (m+1) := by
  induction l generalizing m with
  | nil => simp at hm
  | cons a l ih =>
    obtain ⟨ha, hl⟩ := List.pairwise_cons.mp hs
    cases m with
    | zero =>
      have haz : cmp a z = 0 := hz
      have hrest : discard cmp z l = l := by
        apply discard_absent
        intro y hy
        have hlt := ha y hy
        have hflip := (ht.flip a y).mp hlt
        have hsame := (ht.congr haz y)
        have hzy := ht.same z y
        omega
      rw [discard, List.filter_cons, if_neg (by simp [haz]), ← discard, hrest]
      rfl
    | succ m =>
      have hm' : m < l.length := by simpa using hm
      have hmz : cmp l[m] z = 0 := by simpa using hz
      have haz := ht.lt_of_lt_of_le (ha _ (List.getElem_mem hm')) hmz.le
      rw [discard, List.filter_cons, if_pos (by simp [haz.ne]), ← discard, ih hl hm' hmz]
      rfl

theorem lookup_at_entry (hs : Strict cmp l) {m : ℕ} (hm : m < l.length) (hz : cmp l[m] z = 0) :
    lookup cmp z l = some l[m] := by
  induction l generalizing m with
  | nil => simp at hm
  | cons a l ih =>
    obtain ⟨ha, hl⟩ := List.pairwise_cons.mp hs
    rw [lookup_cons]
    cases m with
    | zero =>
      have haz : cmp a z = 0 := hz
      rw [if_pos haz]
      rfl
    | succ m =>
      have hm' : m < l.length := by simpa using hm
      have hmz : cmp l[m] z = 0 := by simpa using hz
      have haz := ht.lt_of_lt_of_le (ha _ (List.getElem_mem hm')) hmz.le
      rw [if_neg haz.ne, ih hl hm' hmz]
      rfl

/-- A strict list is determined by what it has of each class. -/
theorem strict_ext (hl : Strict cmp l) (hl' : Strict cmp l')
    (h : ∀ z, lookup cmp z l = lookup cmp z l') : l = l' := by
  induction l generalizing l' with
  | nil =>
    cases l' with
    | nil => rfl
    | cons b l' =>
      have hb := h b
      rw [lookup_cons, if_pos (ht.refl b)] at hb
      cases hb
  | cons a l ih =>
    cases l' with
    | nil =>
      have ha := h a
      rw [lookup_cons, if_pos (ht.refl a)] at ha
      cases ha
    | cons b l' =>
      obtain ⟨ha, htail⟩ := List.pairwise_cons.mp hl
      obtain ⟨hb, htail'⟩ := List.pairwise_cons.mp hl'
      have hab : a = b := by
        have hfirst := h a
        have hsecond := h b
        rw [lookup_cons, if_pos (ht.refl a)] at hfirst
        rw [lookup_cons b, if_pos (ht.refl b)] at hsecond
        rcases List.mem_cons.mp (mem_of_lookup hfirst.symm).1 with hab | hmem
        · exact hab
        · rcases List.mem_cons.mp (mem_of_lookup hsecond).1 with hba | hmem'
          · exact hba.symm
          · have hlt := ha b hmem'
            have hgt := (ht.flip b a).mp (hb a hmem)
            omega
      subst hab
      congr 1
      refine ih htail htail' (fun z => ?_)
      have hz := h z
      rw [lookup_cons, lookup_cons] at hz
      by_cases haz : cmp a z = 0
      · have hnone : ∀ l : List α, (∀ c ∈ l, cmp a c < 0) → lookup cmp z l = none := by
          intro l hc
          apply lookup_none
          intro y hy
          have hlt := hc y hy
          have hsame := ht.congr haz y
          have hzy := ht.same z y
          omega
        rw [hnone l ha, hnone l' hb]
      · rwa [if_neg haz, if_neg haz] at hz

theorem upsertAll_strict (hs : Strict cmp l) : Strict cmp (upsertAll cmp l ys) := by
  induction ys generalizing l with
  | nil => exact hs
  | cons y ys ih => exact ih (upsert_strict ht hs)

/-- Merging keeps, of each class, what the merged list has, else what was there. -/
theorem lookup_upsertAll (hs : Strict cmp l) (hys : Strict cmp ys) :
    lookup cmp z (upsertAll cmp l ys) = (lookup cmp z ys).or (lookup cmp z l) := by
  induction ys generalizing l with
  | nil => rfl
  | cons y ys ih =>
    obtain ⟨hy, hys⟩ := List.pairwise_cons.mp hys
    change lookup cmp z (upsertAll cmp (upsert cmp y l) ys) = _
    rw [ih (upsert_strict ht hs) hys, lookup_upsert ht hs, lookup_cons]
    by_cases hyz : cmp y z = 0
    · have hnone : lookup cmp z ys = none := by
        apply lookup_none
        intro a ha
        have hlt := hy a ha
        have hsame := ht.congr hyz a
        have hza := ht.same z a
        omega
      rw [if_pos hyz, if_pos hyz, hnone]
      rfl
    · rw [if_neg hyz, if_neg hyz]

theorem upsertAll_after (hl : Strict cmp l) (hys : Strict cmp ys)
    (h : ∀ a ∈ l, ∀ b ∈ ys, cmp a b < 0) : upsertAll cmp l ys = l ++ ys := by
  refine strict_ext ht (upsertAll_strict ht hl) (strict_append hl hys h) (fun z => ?_)
  rw [lookup_upsertAll ht hl hys, lookup_append]
  cases hlz : lookup cmp z l with
  | none => simp
  | some a =>
    obtain ⟨ha, haz⟩ := mem_of_lookup hlz
    have hnone : lookup cmp z ys = none := by
      apply lookup_none
      intro b hb
      have hlt := h a ha b hb
      have hsame := ht.congr haz b
      have hzb := ht.same z b
      omega
    rw [hnone]
    rfl

theorem upsertAll_before (hl : Strict cmp l) (hys : Strict cmp ys)
    (h : ∀ b ∈ ys, ∀ a ∈ l, cmp b a < 0) : upsertAll cmp l ys = ys ++ l := by
  refine strict_ext ht (upsertAll_strict ht hl) (strict_append hys hl h) (fun z => ?_)
  rw [lookup_upsertAll ht hl hys, lookup_append]

end Wingray.KeyedList
