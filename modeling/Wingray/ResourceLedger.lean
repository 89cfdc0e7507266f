import Mathlib.Tactic

/-!
# Who owns the resources a component holds

Every owner holds at most one resource. The account is exact when the held
resources are those of the owners, each held once and owned by one owner.
-/

set_option autoImplicit false

namespace Wingray.ResourceLedger

variable {O R : Type*}

structure Exact (own : O → Option R) (held : List R) : Prop where
  nodup : held.Nodup
  owned : ∀ r, r ∈ held ↔ ∃ o, own o = some r
  unique : ∀ o o' r, own o = some r → own o' = some r → o = o'

theorem exact_empty (own : O → Option R) (h : ∀ o, own o = none) : Exact own [] where
  nodup := List.nodup_nil
  owned := by
    intro r
    simp [h]
  unique := by
    intro o o' r ho
    simp [h] at ho

theorem unowned_inexact {own : O → Option R} {held : List R} {r : R} (hr : r ∈ held)
    (ho : ∀ o, own o ≠ some r) : ¬ Exact own held := by
  intro he
  obtain ⟨o, howner⟩ := (he.owned r).mp hr
  exact ho o howner

theorem exact_acquire {own own' : O → Option R} {held rs : List R} (he : Exact own held)
    (hkeep : ∀ o, own o ≠ none → own' o = own o)
    (hnew : ∀ r, r ∈ rs ↔ ∃ o, own o = none ∧ own' o = some r)
    (hunique : ∀ o o' r, own o = none → own o' = none → own' o = some r → own' o' = some r →
      o = o')
    (hnodup : rs.Nodup) (hfresh : ∀ r ∈ rs, r ∉ held) : Exact own' (held ++ rs) := by
  have hcases : ∀ o r, own' o = some r →
      (own o = some r ∧ r ∈ held) ∨ (own o = none ∧ r ∈ rs) := by
    intro o r ho
    by_cases hn : own o = none
    · exact .inr ⟨hn, (hnew r).mpr ⟨o, hn, ho⟩⟩
    · have hold := (hkeep o hn).symm.trans ho
      exact .inl ⟨hold, (he.owned r).mpr ⟨o, hold⟩⟩
  constructor
  case nodup =>
    apply List.nodup_append.mpr
    refine ⟨he.nodup, hnodup, ?_⟩
    rintro r hr _ hnr rfl
    exact hfresh r hnr hr
  case owned =>
    intro r
    rw [List.mem_append]
    constructor
    · rintro (hr | hr)
      · obtain ⟨o, ho⟩ := (he.owned r).mp hr
        exact ⟨o, (hkeep o (by rw [ho]; exact Option.some_ne_none r)).trans ho⟩
      · obtain ⟨o, _, ho⟩ := (hnew r).mp hr
        exact ⟨o, ho⟩
    · rintro ⟨o, ho⟩
      exact (hcases o r ho).imp And.right And.right
  case unique =>
    intro o o' r ho ho'
    rcases hcases o r ho with ⟨hold, hr⟩ | ⟨hn, hr⟩
    · rcases hcases o' r ho' with ⟨hold', _⟩ | ⟨_, hr'⟩
      · exact he.unique o o' r hold hold'
      · exact absurd hr (hfresh r hr')
    · rcases hcases o' r ho' with ⟨_, hr'⟩ | ⟨hn', _⟩
      · exact absurd hr' (hfresh r hr)
      · exact hunique o o' r hn hn' ho ho'

theorem exact_release [DecidableEq R] {own own' : O → Option R} {held rs : List R}
    (he : Exact own held) (gone : O → Prop) (hgone : ∀ o, gone o → own' o = none)
    (hkeep : ∀ o, ¬ gone o → own' o = own o)
    (hback : ∀ r, r ∈ rs ↔ ∃ o, gone o ∧ own o = some r) :
    Exact own' (held.filter (fun r => r ∉ rs)) := by
  have hcases : ∀ o r, own' o = some r ↔ own o = some r ∧ r ∉ rs := by
    intro o r
    by_cases hg : gone o
    · rw [hgone o hg]
      constructor
      · exact fun h => nomatch h
      · exact fun h => absurd ((hback r).mpr ⟨o, hg, h.1⟩) h.2
    · rw [hkeep o hg]
      constructor
      · intro ho
        refine ⟨ho, fun hr => ?_⟩
        obtain ⟨o', hg', ho'⟩ := (hback r).mp hr
        exact hg (he.unique o o' r ho ho' ▸ hg')
      · exact And.left
  constructor
  case nodup => exact he.nodup.filter _
  case owned =>
    intro r
    simp only [List.mem_filter, decide_eq_true_eq, hcases, he.owned r]
    exact exists_and_right.symm
  case unique =>
    intro o o' r ho ho'
    exact he.unique o o' r ((hcases o r).mp ho).1 ((hcases o' r).mp ho').1

theorem exact_slots {N : Type*} {own own' : O → Option R} {held : List R} (he : Exact own held)
    (slot : N → O) (all : List N) (opened : N → Option R)
    (hall : ∀ n, n ∈ all) (hnodup : all.Nodup)
    (hvacant : ∀ n, own (slot n) = none) (htaken : ∀ n, own' (slot n) = opened n)
    (hkeep : ∀ o, (∀ n, o ≠ slot n) → own' o = own o)
    (hfresh : ∀ n r, opened n = some r → r ∉ held)
    (hdistinct : ∀ n n' r, opened n = some r → opened n' = some r → n = n') :
    Exact own' (held ++ all.filterMap opened) := by
  have hmem : ∀ r, r ∈ all.filterMap opened ↔ ∃ n, opened n = some r := by
    intro r
    simp [List.mem_filterMap, hall]
  have hold : ∀ o r, own o = none → own' o = some r → ∃ n, o = slot n ∧ opened n = some r := by
    intro o r hn ho
    by_cases hs : ∃ n, o = slot n
    · obtain ⟨n, rfl⟩ := hs
      exact ⟨n, rfl, (htaken n).symm.trans ho⟩
    · rw [hkeep o (fun n hos => hs ⟨n, hos⟩), hn] at ho
      cases ho
  apply exact_acquire he
  · intro o ho
    apply hkeep
    rintro n rfl
    exact ho (hvacant n)
  · intro r
    rw [hmem]
    constructor
    · rintro ⟨n, hn⟩
      exact ⟨slot n, hvacant n, (htaken n).trans hn⟩
    · rintro ⟨o, hn, ho⟩
      obtain ⟨n, _, hr⟩ := hold o r hn ho
      exact ⟨n, hr⟩
  · intro o o' r hn hn' ho ho'
    obtain ⟨n, rfl, hr⟩ := hold o r hn ho
    obtain ⟨n', rfl, hr'⟩ := hold o' r hn' ho'
    rw [hdistinct n n' r hr hr']
  · exact hnodup.filterMap (fun n n' r hr hr' => hdistinct n n' r hr hr')
  · intro r hr
    obtain ⟨n, hn⟩ := (hmem r).mp hr
    exact hfresh n r hn

theorem exact_vacate [DecidableEq R] {N : Type*} {own own' : O → Option R} {held : List R}
    (he : Exact own held) (slot : N → O) (all : List N) (taken : N → R) (hall : ∀ n, n ∈ all)
    (htaken : ∀ n, own (slot n) = some (taken n)) (hvacant : ∀ n, own' (slot n) = none)
    (hkeep : ∀ o, (∀ n, o ≠ slot n) → own' o = own o) :
    Exact own' (held.filter (fun r => r ∉ all.map taken)) := by
  apply exact_release he (fun o => ∃ n, o = slot n)
  · rintro o ⟨n, rfl⟩
    exact hvacant n
  · intro o ho
    exact hkeep o (fun n hos => ho ⟨n, hos⟩)
  · intro r
    simp only [List.mem_map]
    constructor
    · rintro ⟨n, _, rfl⟩
      exact ⟨slot n, ⟨n, rfl⟩, htaken n⟩
    · rintro ⟨o, ⟨n, rfl⟩, ho⟩
      exact ⟨n, hall n, Option.some.inj ((htaken n).symm.trans ho)⟩

theorem exact_gain {own own' : O → Option R} {held : List R} {o : O} {r : R} (he : Exact own held)
    (hvacant : own o = none) (htaken : own' o = some r) (hkeep : ∀ o', o' ≠ o → own' o' = own o')
    (hfresh : r ∉ held) : Exact own' (held ++ [r]) := by
  apply exact_slots he (fun _ : Unit => o) [()] (fun _ => some r)
  · exact fun _ => List.mem_singleton.mpr rfl
  · exact List.nodup_singleton ()
  · exact fun _ => hvacant
  · exact fun _ => htaken
  · exact fun o' ho' => hkeep o' (ho' ())
  · exact fun _ r' hr' => Option.some.inj hr' ▸ hfresh
  · exact fun _ _ _ _ _ => rfl

theorem exact_lose [DecidableEq R] {own own' : O → Option R} {held : List R} {o : O} {r : R}
    (he : Exact own held) (howned : own o = some r) (hvacant : own' o = none)
    (hkeep : ∀ o', o' ≠ o → own' o' = own o') : Exact own' (held.filter (fun r' => r' ∉ [r])) := by
  apply exact_vacate he (fun _ : Unit => o) [()] (fun _ => r)
  · exact fun _ => List.mem_singleton.mpr rfl
  · exact fun _ => howned
  · exact fun _ => hvacant
  · exact fun o' ho' => hkeep o' (ho' ())

theorem Exact.congr {own own' : O → Option R} {held : List R} (he : Exact own held) (o : O)
    (hsame : own' o = own o) (hkeep : ∀ o', o' ≠ o → own' o' = own o') : Exact own' held := by
  have hall : own' = own := by
    funext o'
    by_cases ho : o' = o
    · rw [ho, hsame]
    · exact hkeep o' ho
  rw [hall]
  exact he

theorem stray_inexact {own : O → Option R} {held rs : List R} {r : R} (he : Exact own held)
    (hr : r ∈ rs) (hfresh : r ∉ held) : ¬ Exact own (held ++ rs) := by
  apply unowned_inexact (List.mem_append_right _ hr)
  intro o ho
  exact hfresh ((he.owned r).mpr ⟨o, ho⟩)

end Wingray.ResourceLedger
