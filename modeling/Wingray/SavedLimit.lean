import Mathlib.Tactic

/-!
# Lowering a limit and restoring the saved one

A throttle lowers its limit on an off call and restores the saved limit on an
on call. Every off call saves the limit it finds, so a second off call in a
row saves the lowered one.
-/

set_option autoImplicit false

namespace Wingray.SavedLimit

variable {V C : Type*}

structure Throttle (V : Type*) where
  limit : V
  saved : V

def call (low : V) (isOn : C → Bool) (g : Throttle V) (c : C) : Throttle V :=
  if isOn c then { g with limit := g.saved } else ⟨low, g.limit⟩

def calls (low : V) (isOn : C → Bool) (g : Throttle V) (cs : List C) : Throttle V :=
  cs.foldl (call low isOn) g

/-- A maximal block of off calls and the on calls that follow it. -/
structure Block (isOn : C → Bool) (before offs ons : List C) : Prop where
  begins : ∀ c ∈ before.getLast?, isOn c = true
  offs_ne : offs ≠ []
  offs_off : ∀ c ∈ offs, isOn c = false
  ons_ne : ons ≠ []
  ons_on : ∀ c ∈ ons, isOn c = true

def Undone (isOn : C → Bool) (value : List C → V) (cs : List C) : Prop :=
  ∀ before offs ons rest, cs = before ++ (offs ++ (ons++rest)) → Block isOn before offs ons →
    value (before ++ (offs++ons)) = value before

def NeverRepeated (isOn : C → Bool) (cs : List C) : Prop :=
  ∀ before c d rest, cs = before ++ c::d::rest → isOn c = false → isOn d = false →
    ∀ e ∈ rest, isOn e = false

variable {low : V} {isOn : C → Bool}

theorem undone_congr {value value' : List C → V} {cs : List C}
    (h : ∀ ds es, cs = ds++es → value ds = value' ds) :
    Undone isOn value cs ↔ Undone isOn value' cs := by
  have hvalues : ∀ before offs ons rest, cs = before ++ (offs ++ (ons++rest)) →
      (value (before ++ (offs++ons)) = value before ↔
        value' (before ++ (offs++ons)) = value' before) := by
    intro before offs ons rest he
    rw [h before _ he, h (before ++ (offs++ons)) rest (by simp [he])]
  constructor
  · intro hu before offs ons rest he hb
    exact (hvalues before offs ons rest he).mp (hu before offs ons rest he hb)
  · intro hu before offs ons rest he hb
    exact (hvalues before offs ons rest he).mpr (hu before offs ons rest he hb)

theorem calls_append (g : Throttle V) (cs ds : List C) :
    calls low isOn g (cs++ds) = calls low isOn (calls low isOn g cs) ds :=
  List.foldl_append

theorem calls_ons (g : Throttle V) (ons : List C) (h : ∀ c ∈ ons, isOn c = true) :
    (calls low isOn g ons).saved = g.saved ∧
      (ons ≠ [] → (calls low isOn g ons).limit = g.saved) := by
  induction ons generalizing g with
  | nil => exact ⟨rfl, fun hn => absurd rfl hn⟩
  | cons c ons ih =>
    have hc : call low isOn g c = { g with limit := g.saved } := if_pos (h c (by simp))
    obtain ⟨hsaved, hlimit⟩ := ih (call low isOn g c) (fun d hd => h d (by simp [hd]))
    rw [hc] at hsaved hlimit
    have hstep : calls low isOn g (c::ons) = calls low isOn { g with limit := g.saved } ons := by
      rw [← hc]
      rfl
    rw [hstep]
    constructor
    · exact hsaved
    · intro _
      cases ons with
      | nil => rfl
      | cons d ds => exact hlimit (by simp)

theorem calls_offs (g : Throttle V) (c : C) (offs : List C)
    (h : ∀ d ∈ c::offs, isOn d = false) :
    (calls low isOn g (c::offs)).saved = if offs = [] then g.limit else low := by
  induction offs generalizing g c with
  | nil =>
    rw [if_pos rfl, calls, List.foldl_cons, List.foldl_nil, call, h c (by simp)]
    rfl
  | cons d ds ih =>
    have hc : call low isOn g c = ⟨low, g.limit⟩ := by rw [call, h c (by simp)]; rfl
    have htail := ih (call low isOn g c) d (fun e he => h e (List.mem_cons_of_mem c he))
    rw [hc] at htail
    have hstep : calls low isOn g (c::d::ds) = calls low isOn ⟨low, g.limit⟩ (d::ds) := by
      rw [← hc]
      rfl
    rw [hstep, htail, if_neg (List.cons_ne_nil d ds)]
    split_ifs <;> rfl

/-- What a block leaves behind: the limit before it when it is a single off
call, else the lowered one. -/
theorem block_limit (g : Throttle V) {before offs ons : List C} (hb : Block isOn before offs ons) :
    (calls low isOn g (before ++ (offs++ons))).limit =
      if offs.length = 1 then (calls low isOn g before).limit else low := by
  obtain ⟨c, ds, hoffs⟩ := List.exists_cons_of_ne_nil hb.offs_ne
  have hoff := hb.offs_off
  rw [hoffs] at hoff
  have hsaved : (calls low isOn (calls low isOn g before) (c::ds)).saved =
      if ds = [] then (calls low isOn g before).limit else low := calls_offs _ c ds hoff
  rw [calls_append, calls_append,
    (calls_ons _ ons hb.ons_on).2 hb.ons_ne, hoffs, hsaved]
  have hlen : (c::ds).length = 1 ↔ ds = [] := by simp
  simp only [hlen]

theorem neverRepeated_cons_on (c : C) (cs : List C) (hc : isOn c = true)
    (h : NeverRepeated isOn cs) : NeverRepeated isOn (c::cs) := by
  intro before a b rest he ha hb
  cases before with
  | nil =>
    obtain ⟨rfl, _⟩ := List.cons.inj he
    simp [hc] at ha
  | cons x xs => exact h xs a b rest (List.cons.inj he).2 ha hb

theorem neverRepeated_cons_off (c d : C) (cs : List C) (hd : isOn d = true)
    (h : NeverRepeated isOn cs) : NeverRepeated isOn (c::d::cs) := by
  intro before a b rest he ha hb
  cases before with
  | nil =>
    obtain ⟨_, htail⟩ := List.cons.inj he
    obtain ⟨rfl, _⟩ := List.cons.inj htail
    simp [hd] at hb
  | cons x xs =>
    exact neverRepeated_cons_on d cs hd h xs a b rest (List.cons.inj he).2 ha hb

theorem undone_drop {value : List C → V} (xs : List C) (cs : List C)
    (hx : ∀ c ∈ xs.getLast?, isOn c = true) (h : Undone isOn value (xs++cs)) :
    Undone isOn (fun ds => value (xs++ds)) cs := by
  intro before offs ons rest he hb
  have hbegins : ∀ c ∈ (xs++before).getLast?, isOn c = true := by
    intro c hc
    rw [List.getLast?_append, Option.mem_def, Option.or_eq_some_iff] at hc
    rcases hc with hc | ⟨_, hc⟩
    · exact hb.begins c hc
    · exact hx c hc
  have := h (xs++before) offs ons rest (by rw [he, List.append_assoc])
    ⟨hbegins, hb.offs_ne, hb.offs_off, hb.ons_ne, hb.ons_on⟩
  simpa only [List.append_assoc] using this

theorem first_on (cs : List C) (e : C) (he : e ∈ cs) (hon : isOn e = true) :
    ∃ offs on rest, cs = offs ++ on::rest ∧ (∀ c ∈ offs, isOn c = false) ∧ isOn on = true := by
  induction cs with
  | nil => simp at he
  | cons c cs ih =>
    cases hc : isOn c with
    | true => exact ⟨[], c, cs, rfl, by simp, hc⟩
    | false =>
      rcases List.mem_cons.mp he with rfl | he
      · simp [hc] at hon
      · obtain ⟨offs, on, rest, rfl, hoffs, hfirst⟩ := ih he
        have hall : ∀ x ∈ c::offs, isOn x = false := by
          intro x hx
          rcases List.mem_cons.mp hx with rfl | hx
          · exact hc
          · exact hoffs x hx
        exact ⟨c::offs, on, rest, rfl, hall, hfirst⟩

theorem rest_off {g : Throttle V} {c d : C} {cs : List C} (hl : g.limit ≠ low)
    (hc : isOn c = false) (hd : isOn d = false)
    (h : Undone isOn (fun ds => (calls low isOn g ds).limit) (c::d::cs)) :
    ∀ e ∈ cs, isOn e = false := by
  intro e he
  by_contra hon
  obtain ⟨offs, on, rest, rfl, hoffs, hfirst⟩ := first_on cs e he (by simpa using hon)
  have hall : ∀ x ∈ c::d::offs, isOn x = false := by
    intro x hx
    simp only [List.mem_cons] at hx
    rcases hx with rfl | rfl | hx
    · exact hc
    · exact hd
    · exact hoffs x hx
  have hb : Block isOn [] (c::d::offs) [on] :=
    ⟨by simp, by simp, hall, by simp, by simpa using hfirst⟩
  have hundone := h [] (c::d::offs) [on] rest (by simp) hb
  simp only [block_limit g hb] at hundone
  simp only [List.length_cons, Nat.add_eq_right, Nat.add_eq_zero_iff, one_ne_zero, and_false,
    if_false] at hundone
  exact hl hundone.symm

theorem neverRepeated_of_undone : ∀ (cs : List C) (g : Throttle V), g.limit ≠ low →
    g.saved ≠ low → Undone isOn (fun ds => (calls low isOn g ds).limit) cs →
    NeverRepeated isOn cs
  | [], _, _, _, _ => by
    intro before c d rest he
    simp at he
  | c::cs, g, hl, hs, h => by
    cases hc : isOn c with
    | true =>
      have htail := undone_drop [c] cs (by simpa using hc) h
      have hstep : call low isOn g c = { g with limit := g.saved } := by rw [call, hc]; rfl
      simp only [List.singleton_append, calls, List.foldl_cons, hstep] at htail
      have hrest := neverRepeated_of_undone cs ⟨g.saved, g.saved⟩ hs hs htail
      exact neverRepeated_cons_on c cs hc hrest
    | false =>
      cases cs with
      | nil =>
        intro before a b rest he
        rcases before with _ | ⟨x, _ | _⟩ <;> simp at he
      | cons d cs =>
        cases hd : isOn d with
        | true =>
          have htail := undone_drop [c, d] cs (by simpa using hd) h
          have hstep : call low isOn (call low isOn g c) d = ⟨g.limit, g.limit⟩ := by
            rw [call, hd, call, hc]
            rfl
          simp only [List.cons_append, List.nil_append, calls, List.foldl_cons, hstep] at htail
          have hrest := neverRepeated_of_undone cs ⟨g.limit, g.limit⟩ hl hl htail
          exact neverRepeated_cons_off c d cs hd hrest
        | false =>
          have hrest : ∀ e ∈ cs, isOn e = false := rest_off hl hc hd h
          intro before a b rest he _ _ e hmem
          have hsuffix : e ∈ c::d::cs := by rw [he]; simp [hmem]
          rcases List.mem_cons.mp hsuffix with rfl | hsuffix
          · exact hc
          · rcases List.mem_cons.mp hsuffix with rfl | hsuffix
            · exact hd
            · exact hrest e hsuffix

theorem undone_of_neverRepeated (g : Throttle V) (cs : List C) (h : NeverRepeated isOn cs) :
    Undone isOn (fun ds => (calls low isOn g ds).limit) cs := by
  intro before offs ons rest he hb
  simp only [block_limit g hb]
  apply if_pos
  rcases offs with _ | ⟨c, _ | ⟨d, ds⟩⟩
  · exact absurd rfl hb.offs_ne
  · rfl
  · obtain ⟨e, es, rfl⟩ := List.exists_cons_of_ne_nil hb.ons_ne
    have hoff := h before c d (ds ++ (e::es ++ rest)) (by simpa using he)
      (hb.offs_off c (by simp)) (hb.offs_off d (by simp)) e (by simp)
    simp [hb.ons_on e (by simp)] at hoff

theorem calls_low (cs : List C) : calls low isOn ⟨low, low⟩ cs = ⟨low, low⟩ := by
  induction cs with
  | nil => rfl
  | cons c cs ih =>
    have hc : call low isOn ⟨low, low⟩ c = ⟨low, low⟩ := by
      unfold call
      split_ifs <;> rfl
    rw [calls, List.foldl_cons, hc]
    exact ih

theorem undone_of_low (saved : V) (c : C) (cs : List C) (hc : isOn c = false) :
    Undone isOn (fun ds => (calls low isOn ⟨low, saved⟩ ds).limit) (c::cs) := by
  intro before offs ons rest he hb
  have hbefore : (calls low isOn ⟨low, saved⟩ before).limit = low := by
    cases before with
    | nil => rfl
    | cons x xs =>
      obtain ⟨rfl, _⟩ := List.cons.inj he
      have hx : call low isOn ⟨low, saved⟩ c = ⟨low, low⟩ := by rw [call, hc]; rfl
      rw [calls, List.foldl_cons, hx]
      exact congrArg Throttle.limit (calls_low xs)
  simp only [block_limit _ hb, hbefore, ite_self]

theorem undone_iff (limit saved : V) (hs : saved ≠ low) (cs : List C) :
    Undone isOn (fun ds => (calls low isOn ⟨limit, saved⟩ ds).limit) cs ↔
      NeverRepeated isOn cs ∨ (limit = low ∧ ∃ c ds, cs = c::ds ∧ isOn c = false) := by
  constructor
  · intro h
    by_cases hl : limit = low
    · cases cs with
      | nil => exact Or.inl (by intro before c d rest he; simp at he)
      | cons c cs =>
        cases hc : isOn c with
        | false => exact Or.inr ⟨hl, c, cs, rfl, hc⟩
        | true =>
          have htail := undone_drop [c] cs (by simpa using hc) h
          have hstep : call low isOn ⟨limit, saved⟩ c = ⟨saved, saved⟩ := by rw [call, hc]; rfl
          simp only [List.singleton_append, calls, List.foldl_cons, hstep] at htail
          exact Or.inl (neverRepeated_cons_on c cs hc
            (neverRepeated_of_undone cs ⟨saved, saved⟩ hs hs htail))
    · exact Or.inl (neverRepeated_of_undone cs ⟨limit, saved⟩ hl hs h)
  · rintro (h | ⟨rfl, c, ds, rfl, hc⟩)
    · exact undone_of_neverRepeated _ cs h
    · exact undone_of_low saved c ds hc

end Wingray.SavedLimit
