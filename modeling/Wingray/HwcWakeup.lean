import Wingray.ConditionVariable
import Wingray.HwcVsync
import Wingray.RunTally

/-!
# The hardware composer wrapper: waking the thread

The thread sleeps while the display is blanked. Blanking, unblanking and
closing change the two flags it looks at under the mutex and signal the
condition.
-/

set_option autoImplicit false

namespace Wingray.HwcWakeup
open Wingray.GuardedRun Wingray.ConditionVariable Wingray.RunTally

structure Shared where
  vsync_running : Bool
  fbblanked : Bool

/-- The thread before it takes the mutex, in the rest of its loop, and at its
end. -/
inductive Pc
  | top
  | body
  | ended

/-- The one call of `tegra2_close`: not yet made, past its test of
`vsync_running`, past its section, past `pthread_join`. -/
inductive Close
  | idle
  | entered
  | released
  | joined

structure Composer where
  monitor : Monitor Shared Pc
  close : Close

def opened : Composer := ⟨⟨⟨true, false⟩, .awake .top⟩, .idle⟩

/-- `advance` is the next step of the thread, to which a sleeping thread comes
with a wake-up, and with `spurious` without one. -/
inductive Label
  | advance
  | spurious
  | blank (blank : ℤ)
  | close

/-- The rest of the section, once there is no wait. -/
def proceed (m : Monitor Shared Pc) : Monitor Shared Pc :=
  m.resume (if !m.shared.vsync_running then .ended else .body)

def advance (m : Monitor Shared Pc) : Option (Monitor Shared Pc) :=
  match m.waiter with
  | .awake .top =>
    some (if m.shared.fbblanked && m.shared.vsync_running then m.wait else proceed m)
  | .awake .body => some (m.resume .top)
  | .awake .ended => none
  | .asleep true => some (proceed m)
  | .asleep false => none

def tegra2Blank (m : Monitor Shared Pc) (blank : ℤ) : Monitor Shared Pc :=
  m.notify (fun shared => { shared with fbblanked := blank ≠ 0 })

def tegra2Close (s : Composer) : Option Composer :=
  match s.close with
  | .idle => some { s with
      close := if s.monitor.shared.vsync_running then .entered else .joined }
  | .entered => some
    { monitor := s.monitor.notify (fun shared => { shared with vsync_running := false })
      close := .released }
  | .released =>
    match s.monitor.waiter with
    | .awake .ended => some { s with close := .joined }
    | _ => none
  | .joined => none

def step (s : Composer) : Label → Option Composer
  | .advance => (advance s.monitor).map (fun m => { s with monitor := m })
  | .spurious =>
    match s.monitor.waiter with
    | .asleep _ => some { s with monitor := proceed s.monitor }
    | .awake _ => none
  | .blank blank => some { s with monitor := tegra2Blank s.monitor blank }
  | .close => tegra2Close s

def MustWait (shared : Shared) : Prop :=
  shared.fbblanked = true ∧ shared.vsync_running = true

def Hung (s : Composer) : Prop :=
  s.monitor.waiter = .asleep false ∧
    (s.monitor.shared.vsync_running = false ∨ s.monitor.shared.fbblanked = false)

def Close.past : Close → Bool
  | .released | .joined => true
  | _ => false

def StaysUp (s : Composer) : Prop :=
  ∀ l s', step s l = some s' → s'.monitor.Asleep → s.monitor.Asleep

structure Inv (s : Composer) : Prop where
  noneLost : s.monitor.NoneLost MustWait
  running : s.monitor.shared.vsync_running = !s.close.past

section Steps

variable {s s' : Composer} {l : Label}

theorem opened_inv : Inv opened := ⟨(fun h => nomatch h), rfl⟩

theorem proceed_noneLost (m : Monitor Shared Pc) : (proceed m).NoneLost MustWait :=
  Monitor.resume_noneLost _

theorem advance_noneLost {m m' : Monitor Shared Pc} (hs : advance m = some m') :
    m'.NoneLost MustWait ∧ m'.shared = m.shared := by
  simp only [advance] at hs
  split at hs
  · obtain rfl := Option.some.inj hs
    split_ifs with hwait
    · rw [Bool.and_eq_true] at hwait
      exact ⟨Monitor.wait_noneLost hwait, rfl⟩
    · exact ⟨proceed_noneLost m, rfl⟩
  · obtain rfl := Option.some.inj hs
    exact ⟨Monitor.resume_noneLost _, rfl⟩
  · cases hs
  · obtain rfl := Option.some.inj hs
    exact ⟨proceed_noneLost m, rfl⟩
  · cases hs

theorem close_inv (h : Inv s) (hs : tegra2Close s = some s') : Inv s' := by
  have hrunning := h.running
  simp only [tegra2Close] at hs
  split at hs
  · case _ hidle =>
    obtain rfl := Option.some.inj hs
    rw [hidle] at hrunning
    have htest : s.monitor.shared.vsync_running = true := hrunning
    exact ⟨h.noneLost, by simp [htest, Close.past]⟩
  · obtain rfl := Option.some.inj hs
    exact ⟨Monitor.notify_noneLost _, rfl⟩
  · case _ hreleased =>
    split at hs
    · obtain rfl := Option.some.inj hs
      rw [hreleased] at hrunning
      exact ⟨h.noneLost, hrunning⟩
    · cases hs
  · cases hs

theorem step_inv (h : Inv s) (hs : step s l = some s') : Inv s' := by
  cases l with
  | advance =>
    obtain ⟨m, hm, rfl⟩ := Option.map_eq_some_iff.mp hs
    obtain ⟨hnone, hshared⟩ := advance_noneLost hm
    exact ⟨hnone, by rw [hshared]; exact h.running⟩
  | spurious =>
    simp only [step] at hs
    split at hs
    · obtain rfl := Option.some.inj hs
      exact ⟨proceed_noneLost s.monitor, h.running⟩
    · cases hs
  | blank blank =>
    obtain rfl := Option.some.inj hs
    exact ⟨Monitor.notify_noneLost _, h.running⟩
  | close => exact close_inv h hs

theorem run_inv {labels : List Label} (hr : Run step (fun _ _ => True) opened labels s) : Inv s :=
  hr.invariant Inv (fun _ _ _ hu _ hs => step_inv hu hs) opened_inv

theorem Inv.not_hung (h : Inv s) : ¬ Hung s := by
  rintro ⟨hasleep, hflags⟩
  obtain ⟨hblanked, hrunning⟩ := h.noneLost hasleep
  rcases hflags with hoff | hoff
  · rw [hrunning] at hoff
    cases hoff
  · rw [hblanked] at hoff
    cases hoff

theorem Inv.staysUp (h : Inv s) (hpast : s.close.past = true) : StaysUp s := by
  have hrunning : s.monitor.shared.vsync_running = false := by simpa [hpast] using h.running
  intro l s' hs hasleep
  cases l with
  | advance =>
    obtain ⟨m, hm, rfl⟩ := Option.map_eq_some_iff.mp hs
    simp only [advance, hrunning, Bool.and_false, Bool.false_eq_true, if_false] at hm
    split at hm <;> cases hm <;> exact absurd hasleep (Monitor.resume_not_asleep _)
  | spurious =>
    simp only [step] at hs
    split at hs
    · obtain rfl := Option.some.inj hs
      exact absurd hasleep (Monitor.resume_not_asleep _)
    · cases hs
  | blank blank =>
    obtain rfl := Option.some.inj hs
    exact Monitor.notify_asleep.mp hasleep
  | close =>
    simp only [step, tegra2Close] at hs
    split at hs
    · obtain rfl := Option.some.inj hs
      exact hasleep
    · obtain rfl := Option.some.inj hs
      exact Monitor.notify_asleep.mp hasleep
    · split at hs
      · obtain rfl := Option.some.inj hs
        exact hasleep
      · cases hs
    · cases hs

end Steps

theorem wakeup_not_lost (labels : List Label) (s : Composer)
    (hr : Run step (fun _ _ => True) opened labels s) :
    ¬ Hung s ∧ (s.close.past = true → StaysUp s) :=
  ⟨(run_inv hr).not_hung, (run_inv hr).staysUp⟩

def closedAsleep : List Label := [.blank 1, .advance, .close, .close]

theorem wakeup_not_lost_closed : ∃ s, Run step (fun _ _ => True) opened closedAsleep s ∧
    s.monitor.waiter = .asleep true ∧ s.close.past = true ∧ ¬ Hung s ∧ StaysUp s := by
  have hr : Run step (fun _ _ => True) opened closedAsleep _ :=
    .cons rfl trivial (.cons rfl trivial (.cons rfl trivial (.cons rfl trivial (.nil _))))
  obtain ⟨hhung, hup⟩ := wakeup_not_lost closedAsleep _ hr
  exact ⟨_, hr, rfl, rfl, hhung, hup rfl⟩

/-! ## The thread ends -/

/-- Its own steps that are left to a thread that has been told to end. -/
def remaining (m : Monitor Shared Pc) : ℕ :=
  match m.waiter with
  | .awake .ended => 0
  | .awake .body => 2
  | _ => 1

/-- After the close the thread can always go on, and every step of its own
brings it closer to its end. -/
theorem Inv.ends {s : Composer} (h : Inv s) (hpast : s.close.past = true) :
    s.monitor.waiter = .awake .ended ∨
      ∃ m, advance s.monitor = some m ∧ remaining m+1 = remaining s.monitor := by
  have hrunning : s.monitor.shared.vsync_running = false := by simpa [hpast] using h.running
  cases hw : s.monitor.waiter with
  | awake pc =>
    cases pc with
    | ended => exact .inl rfl
    | body =>
      refine .inr ⟨s.monitor.resume .top, ?_, ?_⟩
      · simp [advance, hw]
      · simp [remaining, hw, Monitor.resume]
    | top =>
      refine .inr ⟨s.monitor.resume .ended, ?_, ?_⟩
      · simp [advance, hw, hrunning, proceed]
      · simp [remaining, hw, Monitor.resume]
  | asleep signalled =>
    cases signalled with
    | false => exact absurd ⟨hw, .inl hrunning⟩ h.not_hung
    | true =>
      refine .inr ⟨s.monitor.resume .ended, ?_, ?_⟩
      · simp [advance, hw, hrunning, proceed]
      · simp [remaining, hw, Monitor.resume]

theorem blank_remaining (m : Monitor Shared Pc) (blank : ℤ) :
    remaining (tegra2Blank m blank) = remaining m := by
  cases hw : m.waiter with
  | awake pc => simp [tegra2Blank, Monitor.notify, remaining, Waiter.signal, hw]
  | asleep signalled => simp [tegra2Blank, Monitor.notify, remaining, Waiter.signal, hw]

def ownSteps (_ : Composer) : Label → ℕ
  | .advance | .spurious => 1
  | .blank _ | .close => 0

theorem closed_step {s s' : Composer} {l : Label} (h : Inv s) (hpast : s.close.past = true)
    (hs : step s l = some s') :
    ownSteps s l+remaining s'.monitor ≤ remaining s.monitor ∧ s'.close.past = true := by
  have hrunning : s.monitor.shared.vsync_running = false := by simpa [hpast] using h.running
  cases l with
  | advance =>
    obtain ⟨m, hm, rfl⟩ := Option.map_eq_some_iff.mp hs
    refine ⟨?_, hpast⟩
    rcases h.ends hpast with hended | ⟨m', hm', hless⟩
    · simp [advance, hended] at hm
    · obtain rfl := Option.some.inj (hm'.symm.trans hm)
      rw [ownSteps, ← hless, Nat.add_comm]
  | spurious =>
    simp only [step] at hs
    split at hs
    · case _ signalled hasleep =>
      obtain rfl := Option.some.inj hs
      refine ⟨?_, hpast⟩
      simp [ownSteps, remaining, hasleep, proceed, hrunning, Monitor.resume]
    · cases hs
  | blank blank =>
    obtain rfl := Option.some.inj hs
    refine ⟨?_, hpast⟩
    rw [ownSteps, blank_remaining, Nat.zero_add]
  | close =>
    simp only [step, tegra2Close] at hs
    split at hs
    · case _ hidle => simp [hidle, Close.past] at hpast
    · case _ hentered => simp [hentered, Close.past] at hpast
    · split at hs
      · obtain rfl := Option.some.inj hs
        exact ⟨by rw [ownSteps, Nat.zero_add], rfl⟩
      · cases hs
    · cases hs

/-- Once `tegra2_close` has released the mutex the thread takes two more steps at most,
never gets stuck before its end, and at its end lets the close return. -/
theorem close_returns {labels ks : List Label} {u s : Composer}
    (hu : Run step (fun _ _ => True) opened labels u) (hpast : u.close.past = true)
    (hs : Run step (fun _ _ => True) u ks s) :
    tally step ownSteps u ks ≤ 2 ∧
      ((step s .advance).isSome = true ∨ s.monitor.waiter = .awake .ended ∧
        (s.close = .released → (step s .close).isSome = true)) := by
  have hstep : ∀ s l s', (Inv s ∧ s.close.past = true) → True → step s l = some s' →
      ownSteps s l+remaining s'.monitor ≤ remaining s.monitor+0 ∧
        Inv s' ∧ s'.close.past = true := by
    intro s l s' hi _ hl
    obtain ⟨hless, hafter⟩ := closed_step hi.1 hi.2 hl
    exact ⟨hless, step_inv hi.1 hl, hafter⟩
  constructor
  · have hpaid := tally_le (fun s => Inv s ∧ s.close.past = true) (fun s => remaining s.monitor)
      ownSteps (fun _ _ => 0) hstep hs ⟨run_inv hu, hpast⟩
    have hcredit : tally step (fun s l => 0*ownSteps s l) u ks = 0*tally step ownSteps u ks :=
      tally_mul 0 ownSteps u ks
    have hbound : remaining u.monitor ≤ 2 := by
      simp only [remaining]
      split <;> decide
    simp only [Nat.zero_mul] at hcredit
    omega
  · obtain ⟨hinv, hafter⟩ := hs.invariant (fun s => Inv s ∧ s.close.past = true)
      (fun s l s' hi ho hl => (hstep s l s' hi ho hl).2) ⟨run_inv hu, hpast⟩
    rcases hinv.ends hafter with hended | ⟨m, hm, -⟩
    · exact .inr ⟨hended, fun hreleased => by simp [step, tegra2Close, hreleased, hended]⟩
    · exact .inl (by simp [step, hm])

theorem close_returns_asleep : ∃ u, Run step (fun _ _ => True) opened closedAsleep u ∧
    tally step ownSteps u [.blank 0, .advance, .close] ≤ 2 := by
  have hu : Run step (fun _ _ => True) opened closedAsleep _ :=
    .cons rfl trivial (.cons rfl trivial (.cons rfl trivial (.cons rfl trivial (.nil _))))
  exact ⟨_, hu, (close_returns hu rfl
    (.cons rfl trivial (.cons rfl trivial (.cons rfl trivial (.nil _))))).1⟩

/-! ## The thread among its other steps -/

/-- Where the thread is when only its sections under the mutex are seen; there
is no such place while it waits. -/
def seen : HwcVsync.Pc → Option Pc
  | .top => some .top
  | .waiting => none
  | .ended => some .ended
  | _ => some .body

def SeenAs (pc : HwcVsync.Pc) (m : Monitor Shared Pc) : Prop :=
  match seen pc with
  | some pc => m.waiter = .awake pc
  | none => m.Asleep

structure Sees (s : HwcVsync.Tegra2HwcComposerDevice1) (c : Composer) : Prop where
  shared : c.monitor.shared = ⟨s.vsync_running, s.fbblanked⟩
  waiter : SeenAs s.pc c.monitor

def Followed (c : Composer) (s' : HwcVsync.Tegra2HwcComposerDevice1) : Prop :=
  ∃ ls c', Run step (fun _ _ => True) c ls c' ∧ Sees s' c'

section Seen

variable {s s' : HwcVsync.Tegra2HwcComposerDevice1} {c : Composer}

theorem opened_sees : Sees HwcVsync.Tegra2HwcComposerDevice1.opened opened := ⟨rfl, rfl⟩

theorem Sees.idle (h : Sees s c) (hrunning : s'.vsync_running = s.vsync_running)
    (hblanked : s'.fbblanked = s.fbblanked) (hpc : seen s'.pc = seen s.pc) : Followed c s' := by
  refine ⟨[], c, .nil c, by rw [h.shared, hrunning, hblanked], ?_⟩
  rw [SeenAs, hpc]
  exact h.waiter

theorem followed_step {l : Label} (c' : Composer) (hs : step c l = some c') (h : Sees s' c') :
    Followed c s' := ⟨[l], c', .cons hs trivial (.nil c'), h⟩

theorem Sees.back (h : Sees s c) (hbody : seen s.pc = some .body) :
    Followed c { s with pc := .top } := by
  have hwaiter := h.waiter
  simp only [SeenAs, hbody] at hwaiter
  refine followed_step (l := .advance) { c with monitor := c.monitor.resume .top } ?_ ⟨h.shared, rfl⟩
  rw [step, advance, hwaiter]
  rfl

theorem proceed_seen {m : Monitor Shared Pc} (hrunning : m.shared.vsync_running = s.vsync_running) :
    SeenAs (if !s.vsync_running then .ended else .readEnabled) (proceed m) := by
  rw [proceed, hrunning]
  cases s.vsync_running with
  | true => rfl
  | false => rfl

theorem advance_followed (h : Sees s c) (hs : HwcVsync.advance s = some s') : Followed c s' := by
  have hwaiter := h.waiter
  simp only [HwcVsync.advance] at hs
  split at hs
  · case _ hpc =>
    obtain rfl := Option.some.inj hs
    rw [hpc] at hwaiter
    have htop : c.monitor.waiter = .awake .top := hwaiter
    have hadvance : step c .advance = some { c with
        monitor := if s.fbblanked && s.vsync_running then c.monitor.wait
          else proceed c.monitor } := by
      rw [step, advance, htop, h.shared]
      rfl
    refine followed_step _ hadvance ?_
    by_cases hwait : (s.fbblanked && s.vsync_running) = true
    · simp only [if_pos hwait]
      exact ⟨h.shared, false, rfl⟩
    · simp only [if_neg hwait]
      exact ⟨h.shared, proceed_seen (by rw [h.shared])⟩
  · cases hs
  · case _ hpc =>
    obtain rfl := Option.some.inj hs
    split_ifs
    · exact h.idle rfl rfl (by rw [hpc]; rfl)
    · exact h.back (by rw [hpc]; rfl)
  · case _ hpc =>
    obtain rfl := Option.some.inj hs
    split_ifs
    · exact h.idle rfl rfl (by rw [hpc]; rfl)
    · exact h.back (by rw [hpc]; rfl)
  · case _ hpc =>
    obtain rfl := Option.some.inj hs
    exact h.idle rfl rfl (by rw [hpc]; rfl)
  · case _ hpc =>
    obtain rfl := Option.some.inj hs
    exact h.back (by rw [hpc]; rfl)
  · cases hs

theorem notify_seen {pc : HwcVsync.Pc} {m : Monitor Shared Pc} {f : Shared → Shared}
    (h : SeenAs pc m) : SeenAs pc (m.notify f) := by
  cases hpc : seen pc with
  | none =>
    simp only [SeenAs, hpc] at h ⊢
    exact Monitor.notify_asleep.mpr h
  | some p =>
    simp only [SeenAs, hpc] at h ⊢
    rw [Monitor.notify, h]
    rfl

theorem step_followed (h : Sees s c) {l : HwcVsync.Label} (hs : HwcVsync.step s l = some s') :
    Followed c s' := by
  cases l with
  | advance => exact advance_followed h hs
  | wake =>
    simp only [HwcVsync.step] at hs
    split at hs
    · case _ hpc =>
      obtain rfl := Option.some.inj hs
      have hwaiter := h.waiter
      rw [hpc] at hwaiter
      obtain ⟨signalled, hasleep⟩ := hwaiter
      refine followed_step (l := .spurious) { c with monitor := proceed c.monitor } ?_
        ⟨h.shared, proceed_seen (by rw [h.shared])⟩
      rw [step, hasleep]
    · cases hs
  | enter k call =>
    simp only [HwcVsync.step] at hs
    split at hs <;> cases hs
    exact h.idle rfl rfl rfl
  | answer k ret =>
    simp only [HwcVsync.step] at hs
    split at hs
    · split_ifs at hs <;> cases hs <;> exact h.idle rfl rfl rfl
    · cases hs
  | act k =>
    simp only [HwcVsync.step, HwcVsync.act] at hs
    split at hs
    · cases hs
      exact h.idle rfl rfl rfl
    · case _ disp blanked _ =>
      cases hs
      refine followed_step (l := .blank blanked) _ rfl ⟨?_, ?_⟩
      · simp [tegra2Blank, Monitor.notify, h.shared, HwcVsync.Tegra2HwcComposerDevice1.effect]
      · exact notify_seen h.waiter
    · cases hs
      exact h.idle rfl rfl rfl
    · cases hs
  | leave k =>
    simp only [HwcVsync.step] at hs
    split at hs <;> cases hs
    exact h.idle rfl rfl rfl

/-- Every run of the wrapper among its callers is one of the thread's runs
under the mutex. -/
theorem run_followed {ok : HwcVsync.Tegra2HwcComposerDevice1 → HwcVsync.Label → Prop}
    {labels : List HwcVsync.Label} (hr : Run HwcVsync.step ok s labels s') (h : Sees s c) :
    Followed c s' := by
  induction hr generalizing c with
  | nil => exact ⟨[], c, .nil c, h⟩
  | cons hs _ _ ih =>
    obtain ⟨ls, c', hc, hsees⟩ := step_followed h hs
    obtain ⟨ks, t, hk, ht⟩ := ih hsees
    exact ⟨ls ++ ks, t, hc.append hk, ht⟩

end Seen

end Wingray.HwcWakeup
