import Wingray.GuardedRun
import Wingray.HwcRefresh

/-!
# The hardware composer wrapper: the pace of emulated synchronisation

The thread adds one period to its target on every turn and sleeps until then.
When it is late it starts over from the present time.
-/

set_option autoImplicit false

namespace Wingray.HwcPacing
open Wingray.GuardedRun Wingray.HwcRefresh

/-- The thread before it takes the mutex, before its reading of the time,
before its second reading when it is late, in `nanosleep` and at the callback. -/
inductive Pc
  | top
  | estimate
  | late
  | sleep (ts : ℤ)
  | vsync
  | ended

/-- `clock` is the time of the last event, `targets` and `passes` are history:
what the target was on each turn, and when the thread came to the callback. -/
structure Thread where
  pc : Pc
  nexttm_ns : ℤ
  clock : ℤ
  targets : List ℤ
  passes : List ℤ

def started (start : ℤ) : Thread where
  pc := .top
  nexttm_ns := start
  clock := start
  targets := [start]
  passes := []

inductive Nanosleep
  | slept
  | interrupted (rem : ℤ)
  | failed

/-- What happens at time `t`: the mutex is released, and no wait is left; a
reading of the clock; `nanosleep` returns; the thread comes to the callback. -/
inductive Label
  | proceed (t : ℤ) (vsync_running : Bool)
  | read (t : ℤ)
  | nap (t : ℤ) (err : Nanosleep)
  | pass (t : ℤ)

def Label.time : Label → ℤ
  | .proceed t _ | .read t | .nap t _ | .pass t => t

def estimate (period : ℕ) (s : Thread) (t : ℤ) : Thread :=
  let nexttm_ns := s.nexttm_ns+period
  let deltatm_ns := nexttm_ns-t
  if deltatm_ns < 0 ∨ deltatm_ns > period then
    { s with pc := .late, nexttm_ns := nexttm_ns, clock := t }
  else { s with
    pc := if deltatm_ns > 0 then .sleep deltatm_ns else .vsync
    nexttm_ns := nexttm_ns
    clock := t
    targets := s.targets ++ [nexttm_ns] }

def step (period : ℕ) (s : Thread) (l : Label) : Option Thread :=
  match s.pc, l with
  | .top, .proceed t vsync_running =>
    some { s with pc := if vsync_running then .estimate else .ended, clock := t }
  | .estimate, .read t => some (estimate period s t)
  | .late, .read t =>
    some { s with pc := .vsync, nexttm_ns := t, clock := t, targets := s.targets ++ [t] }
  | .sleep _, .nap t (.interrupted rem) => some { s with pc := .sleep rem, clock := t }
  | .sleep _, .nap t _ => some { s with pc := .vsync, clock := t }
  | .vsync, .pass t => some { s with pc := .top, clock := t, passes := s.passes ++ [t] }
  | _, _ => none

/-- The clock does not run backwards, a completed `nanosleep` takes the time
asked for, an interrupted one leaves what is missing, and only nanoseconds out
of range are an error. -/
def Ok (s : Thread) (l : Label) : Prop :=
  s.clock ≤ l.time ∧
    match s.pc, l with
    | .sleep ts, .nap t .slept => s.clock+ts ≤ t
    | .sleep ts, .nap t (.interrupted rem) => 0 ≤ rem ∧ rem ≤ ts ∧ s.clock+(ts-rem) ≤ t
    | .sleep ts, .nap _ .failed => ¬ (0 ≤ ts ∧ ts < 10^9)
    | _, _ => True

/-! ## What a run keeps -/

def Apart (period : ℕ) (targets : List ℤ) : Prop :=
  targets.IsChain (fun (target next : ℤ) => target+period ≤ next)

/-- Never faster than the panel. -/
structure Paced (period : ℕ) (start : ℤ) (s : Thread) : Prop where
  targets : Apart period s.targets
  sleep : ∀ ts, s.pc = .sleep ts → 0 ≤ ts ∧ ts ≤ period
  passes : ∀ (i : ℕ) (t : ℤ), s.passes[i]? = some t → start+(i+1)*period ≤ t

def Pc.rest : Pc → ℤ
  | .sleep ts => ts
  | _ => 0

def Pc.counted : Pc → ℕ
  | .late | .sleep _ | .vsync => 1
  | _ => 0

/-- A late thread is one period past its last target. -/
def Pc.ahead (period : ℕ) : Pc → ℤ
  | .late => period
  | _ => 0

structure Inv (period : ℕ) (start : ℤ) (s : Thread) : Prop where
  reached : s.nexttm_ns ≤ s.clock+s.pc.rest
  rest : 0 ≤ s.pc.rest ∧ s.pc.rest ≤ period
  last : s.targets.getLast? = some (s.nexttm_ns-s.pc.ahead period)
  apart : Apart period s.targets
  due : start+(s.passes.length+s.pc.counted)*period ≤ s.nexttm_ns
  passes : ∀ (i : ℕ) (t : ℤ), s.passes[i]? = some t → start+(i+1)*period ≤ t

section Steps

variable {period : ℕ} {start t : ℤ} {s s' : Thread} {l : Label}

theorem started_inv (period : ℕ) (start : ℤ) : Inv period start (started start) where
  reached := by simp [started, Pc.rest]
  rest := ⟨le_refl 0, Int.natCast_nonneg period⟩
  last := by simp [started, Pc.ahead]
  apart := .singleton start
  due := by simp [started, Pc.counted]
  passes := by simp [started]

theorem Inv.paced (h : Inv period start s) : Paced period start s where
  targets := h.apart
  sleep := fun ts hpc => by simpa [hpc, Pc.rest] using h.rest
  passes := h.passes

theorem apart_append {targets : List ℤ} {last next : ℤ} (hlast : targets.getLast? = some last)
    (h : Apart period targets) (hnext : last+period ≤ next) : Apart period (targets ++ [next]) := by
  refine List.IsChain.append h (.singleton next) ?_
  simp only [hlast, Option.mem_some_iff, List.head?_cons, forall_eq']
  exact hnext

theorem passes_append {passes : List ℤ}
    (h : ∀ (i : ℕ) (u : ℤ), passes[i]? = some u → start+(i+1)*period ≤ u)
    (ht : start+(passes.length+1)*period ≤ t) :
    ∀ (i : ℕ) (u : ℤ), (passes ++ [t])[i]? = some u → start+(i+1)*period ≤ u := by
  intro i u hu
  by_cases hi : i < passes.length
  · rw [List.getElem?_append_left hi] at hu
    exact h i u hu
  · rw [List.getElem?_append_right (not_lt.mp hi), List.getElem?_singleton] at hu
    split_ifs at hu with hzero
    obtain rfl := Option.some.inj hu
    obtain rfl : i = passes.length := by omega
    exact ht

theorem estimate_inv (h : Inv period start s) (hpc : s.pc = .estimate) (ht : s.clock ≤ t) :
    Inv period start (estimate period s t) := by
  have hreached := h.reached
  have hlast := h.last
  have hdue := h.due
  simp only [hpc, Pc.rest, add_zero] at hreached
  simp only [hpc, Pc.ahead, sub_zero] at hlast
  simp only [hpc, Pc.counted, Nat.cast_zero, add_zero] at hdue
  have hearly : ¬ s.nexttm_ns+period-t > period := by omega
  simp only [estimate, hearly, or_false]
  split_ifs with hlate hwait
  · exact
      { reached := by simp only [Pc.rest]; omega
        rest := ⟨le_refl 0, Int.natCast_nonneg period⟩
        last := by simpa [Pc.ahead] using hlast
        apart := h.apart
        due := by simp only [Pc.counted]; push_cast; linarith
        passes := h.passes }
  · exact
      { reached := by simp [Pc.rest]
        rest := by simp only [Pc.rest]; omega
        last := by simp [Pc.ahead]
        apart := apart_append hlast h.apart (le_refl _)
        due := by simp only [Pc.counted]; push_cast; linarith
        passes := h.passes }
  · exact
      { reached := by simp only [Pc.rest]; omega
        rest := ⟨le_refl 0, Int.natCast_nonneg period⟩
        last := by simp [Pc.ahead]
        apart := apart_append hlast h.apart (le_refl _)
        due := by simp only [Pc.counted]; push_cast; linarith
        passes := h.passes }

theorem late_inv (h : Inv period start s) (hpc : s.pc = .late) (ht : s.clock ≤ t) :
    Inv period start { s with
      pc := .vsync, nexttm_ns := t, clock := t, targets := s.targets ++ [t] } := by
  have hreached := h.reached
  have hdue := h.due
  simp only [hpc, Pc.rest, add_zero] at hreached
  simp only [hpc, Pc.counted] at hdue
  exact
    { reached := by simp [Pc.rest]
      rest := ⟨le_refl 0, Int.natCast_nonneg period⟩
      last := by simp [Pc.ahead]
      apart := by
        apply apart_append h.last h.apart
        simp only [hpc, Pc.ahead]
        omega
      due := by
        simp only [Pc.counted]
        omega
      passes := h.passes }

theorem wait_inv (h : Inv period start s) {pc : Pc} (hrest : 0 ≤ pc.rest ∧ pc.rest ≤ s.pc.rest)
    (ht : s.clock+(s.pc.rest-pc.rest) ≤ t) (hcounted : pc.counted = s.pc.counted)
    (hahead : pc.ahead period = s.pc.ahead period) :
    Inv period start { s with pc := pc, clock := t } where
  reached := by
    have hreached := h.reached
    show s.nexttm_ns ≤ t+pc.rest
    omega
  rest := ⟨hrest.1, hrest.2.trans h.rest.2⟩
  last := by
    show s.targets.getLast? = some (s.nexttm_ns-pc.ahead period)
    rw [hahead]
    exact h.last
  apart := h.apart
  due := by
    show start+(s.passes.length+pc.counted)*period ≤ s.nexttm_ns
    rw [hcounted]
    exact h.due
  passes := h.passes

theorem pass_inv (h : Inv period start s) (hpc : s.pc = .vsync) (ht : s.clock ≤ t) :
    Inv period start { s with pc := .top, clock := t, passes := s.passes ++ [t] } := by
  have hreached := h.reached
  have hlast := h.last
  have hdue := h.due
  simp only [hpc, Pc.rest, add_zero] at hreached
  simp only [hpc, Pc.ahead] at hlast
  simp only [hpc, Pc.counted, Nat.cast_one] at hdue
  exact
    { reached := by
        simp only [Pc.rest]
        omega
      rest := ⟨le_refl 0, Int.natCast_nonneg period⟩
      last := hlast
      apart := h.apart
      due := by simpa [Pc.counted] using hdue
      passes := passes_append h.passes (hdue.trans (hreached.trans ht)) }

theorem step_inv (hp : period < 10^9) (h : Inv period start s) (hok : Ok s l)
    (hs : step period s l = some s') : Inv period start s' := by
  obtain ⟨ht, hok⟩ := hok
  simp only [step] at hs
  split at hs
  · case _ t running hpc =>
    obtain rfl := Option.some.inj hs
    have hwait {pc : Pc} (hrest : pc.rest = 0) (hcounted : pc.counted = 0)
        (hahead : pc.ahead period = 0) : Inv period start { s with pc := pc, clock := t } := by
      refine wait_inv h ?_ ?_ (by rw [hcounted, hpc]; rfl) (by rw [hahead, hpc]; rfl)
      · rw [hrest, hpc]
        exact ⟨le_refl 0, le_refl 0⟩
      · rw [hrest, hpc]
        show s.clock+(0-0) ≤ t
        rw [sub_zero, add_zero]
        exact ht
    cases running with
    | false => exact hwait rfl rfl rfl
    | true => exact hwait rfl rfl rfl
  · case _ t hpc =>
    obtain rfl := Option.some.inj hs
    exact estimate_inv h hpc ht
  · case _ t hpc =>
    obtain rfl := Option.some.inj hs
    exact late_inv h hpc ht
  · case _ ts t rem hpc =>
    obtain rfl := Option.some.inj hs
    rw [hpc] at hok
    obtain ⟨hzero, hrem, hslept⟩ := hok
    refine wait_inv h ?_ ?_ (by rw [hpc]; rfl) (by rw [hpc]; rfl)
    · rw [hpc]
      exact ⟨hzero, hrem⟩
    · rw [hpc]
      exact hslept
  · case _ ts t err hother hpc =>
    obtain rfl := Option.some.inj hs
    have hts := h.rest
    simp only [hpc, Pc.rest] at hok hts
    have hslept : s.clock+ts ≤ t := by
      cases err with
      | slept => exact hok
      | interrupted rem => exact absurd rfl (hother rem)
      | failed => exact absurd ⟨hts.1, by omega⟩ hok
    refine wait_inv h ?_ ?_ (by rw [hpc]; rfl) (by rw [hpc]; rfl)
    · rw [hpc]
      exact ⟨le_refl 0, hts.1⟩
    · simpa [hpc, Pc.rest] using hslept
  · case _ t hpc =>
    obtain rfl := Option.some.inj hs
    exact pass_inv h hpc ht
  · cases hs

theorem run_inv (hp : period < 10^9) {labels : List Label}
    (hr : Run (step period) Ok (started start) labels s) : Inv period start s :=
  hr.invariant (Inv period start) (fun _ _ _ hu hok hs => step_inv hp hu hok hs)
    (started_inv period start)

end Steps

theorem vsync_paced (period : ℕ) (hp : period < 10^9) (start : ℤ) (labels : List Label) (s : Thread)
    (hr : Run (step period) Ok (started start) labels s) : Paced period start s :=
  (run_inv hp hr).paced

def turns : List Label :=
  [.proceed 1 true, .read 2, .nap 5 (.interrupted 6), .nap 11 .slept, .pass 11,
    .proceed 40 true, .read 41, .read 42, .pass 43]

theorem vsync_paced_turns : ∃ s, Run (step 10) Ok (started 0) turns s ∧
    s.targets = [0, 10, 42] ∧ s.passes = [11, 43] ∧ Paced 10 0 s := by
  have hinterrupted : (0 : ℤ) ≤ 6 ∧ (6 : ℤ) ≤ 8 ∧ (2 : ℤ)+(8-6) ≤ 5 := by decide
  have hslept : (5 : ℤ)+6 ≤ 11 := by decide
  have hr : Run (step 10) Ok (started 0) turns _ :=
    .cons rfl ⟨by decide, trivial⟩ (.cons rfl ⟨by decide, trivial⟩
      (.cons rfl ⟨by decide, hinterrupted⟩ (.cons rfl ⟨by decide, hslept⟩
        (.cons rfl ⟨by decide, trivial⟩ (.cons rfl ⟨by decide, trivial⟩
          (.cons rfl ⟨by decide, trivial⟩ (.cons rfl ⟨by decide, trivial⟩
            (.cons rfl ⟨by decide, trivial⟩ (.nil _)))))))))
  exact ⟨_, hr, rfl, rfl, vsync_paced 10 (by decide) 0 turns _ hr⟩

theorem opened_paced (o : Outcome) (h : o.fb_fd < 0 ∨ Timed o.info) (start : ℤ)
    (labels : List Label) (s : Thread)
    (hr : Run (step (timeBetweenFrames o).toNat) Ok (started start) labels s) :
    Paced (timeBetweenFrames o).toNat start s :=
  (run_inv (timeBetweenFrames_sleepable h).2 hr).paced

end Wingray.HwcPacing
