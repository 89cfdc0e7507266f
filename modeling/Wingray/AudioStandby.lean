import Wingray.AudioHardware
import Wingray.SharedLatch

/-!
# Standby of the driver and of the streams

Each direction of the driver has one standby flag, and each stream a flag of
its own that it alone looks at before it transfers data. Each direction is the
latch of its streams.
-/

set_option autoImplicit false

namespace Wingray.AudioStandby
open Wingray.GuardedRun Wingray.SharedLatch Wingray.AudioHardware

variable {F : Type}

def outRequest (on : ℤ) : Request := .CPCAP_AUDIO_OUT_SET_OUTPUT ⟨CPCAP_AUDIO_OUT_STANDBY, on⟩

def inRequest (on : ℤ) : Request := .CPCAP_AUDIO_IN_SET_INPUT ⟨CPCAP_AUDIO_IN_STANDBY, on⟩

def outOp (e : Event F) : Op ℕ :=
  match e.call with
  | .outStandby h => .sleep h (e.answers.accepted (outRequest 1))
  | .outWrite h => .use h (e.answers.accepted (outRequest 0))
  | .adevOpenOutputStream h _ => .join h
  | _ => .other

def inOp (e : Event F) : Op ℕ :=
  match e.call with
  | .inStandby h => .sleep h (e.answers.accepted (inRequest 1))
  | .inRead h => .use h (e.answers.accepted (inRequest 0))
  | .adevOpenInputStream h _ => .join h
  | _ => .other

def OutLatched (s : Hal F) (l : Latch ℕ) : Prop :=
  Latched s.outs StreamOut.standby s.driver.output.standby l

def InLatched (s : Hal F) (l : Latch ℕ) : Prop :=
  Latched s.ins StreamIn.standby s.driver.input.standby l

/-! ## Requests -/

section Requests

variable (s : Hal F) (a : Answers)

@[simp] theorem ioctl_outs (r : Request) : (s.ioctl a r).outs = s.outs := by
  simp only [Hal.ioctl]
  split_ifs <;> rfl

@[simp] theorem ioctl_ins (r : Request) : (s.ioctl a r).ins = s.ins := by
  simp only [Hal.ioctl]
  split_ifs <;> rfl

@[simp] theorem getOutput_outs : (s.getOutput a).outs = s.outs := by
  simp only [Hal.getOutput]
  split_ifs <;> rfl

@[simp] theorem getOutput_ins : (s.getOutput a).ins = s.ins := by
  simp only [Hal.getOutput]
  split_ifs <;> rfl

@[simp] theorem getInput_outs : (s.getInput a).outs = s.outs := by
  simp only [Hal.getInput]
  split_ifs <;> rfl

@[simp] theorem getInput_ins : (s.getInput a).ins = s.ins := by
  simp only [Hal.getInput]
  split_ifs <;> rfl

def Unrelated : Request → Prop
  | .CPCAP_AUDIO_OUT_SET_OUTPUT stream => stream.id ≠ CPCAP_AUDIO_OUT_STANDBY
  | .CPCAP_AUDIO_IN_SET_INPUT stream => stream.id ≠ CPCAP_AUDIO_IN_STANDBY
  | _ => True

def standby (s : Hal F) : Bool × Bool := (s.driver.output.standby, s.driver.input.standby)

theorem ioctl_standby (r : Request) (hr : Unrelated r) : standby (s.ioctl a r) = standby s := by
  simp only [Hal.ioctl]
  split_ifs
  · cases r with
    | CPCAP_AUDIO_OUT_SET_OUTPUT stream =>
      simp only [standby, Driver.accept, OutputSettings.accept, InputSettings.accept]
      rw [if_neg hr]
    | CPCAP_AUDIO_IN_SET_INPUT stream =>
      simp only [standby, Driver.accept, OutputSettings.accept, InputSettings.accept]
      rw [if_neg hr]
    | _ => rfl
  · rfl

@[simp] theorem getOutput_standby : standby (s.getOutput a) = standby s := by
  simp only [standby, getOutput_driver]

@[simp] theorem getInput_standby : standby (s.getInput a) = standby s := by
  simp only [standby, getInput_driver]

theorem ioctl_outRequest (on : ℤ) : standby (s.ioctl a (outRequest on)) =
    (if a.accepted (outRequest on) then decide (on ≠ 0) else (standby s).1, (standby s).2) := by
  simp only [Hal.ioctl]
  split_ifs <;> rfl

theorem ioctl_inRequest (on : ℤ) : standby (s.ioctl a (inRequest on)) =
    ((standby s).1, if a.accepted (inRequest on) then decide (on ≠ 0) else (standby s).2) := by
  simp only [Hal.ioctl]
  split_ifs <;> rfl

end Requests

/-! ## Calls -/

section Calls

variable (s : Hal F) (a : Answers) (h : ℕ)

theorem outStandby_standby (out : StreamOut) : standby (s.outStandby a h out) =
    ((standby s).1 || a.accepted (outRequest 1), (standby s).2) := by
  have hend : standby (s.outStandby a h out) =
      standby ((s.ioctl a .TEGRA_AUDIO_OUT_FLUSH).ioctl a (outRequest 1)) :=
    getOutput_standby _ a
  rw [hend, ioctl_outRequest, ioctl_standby s a .TEGRA_AUDIO_OUT_FLUSH trivial]
  cases a.accepted (outRequest 1) <;> simp

theorem outWake_standby (out : StreamOut) : standby (s.outWake a h out) =
    ((standby s).1 && !a.accepted (outRequest 0), (standby s).2) := by
  have hwoken : standby ((s.ioctl a (outRequest 0)).getOutput a) =
      ((standby s).1 && !a.accepted (outRequest 0), (standby s).2) := by
    rw [getOutput_standby, ioctl_outRequest]
    cases a.accepted (outRequest 0) <;> simp
  rw [← hwoken]
  have hrate : ∀ u : Hal F, standby (u.ioctl a (.CPCAP_AUDIO_OUT_SET_RATE u.adev.cpcapOutRate)) =
      standby u := fun u => ioctl_standby u a _ (by trivial)
  exact (hrate _).trans ((ioctl_standby _ a (.TEGRA_AUDIO_OUT_SET_NUM_BUFS 4) trivial).trans
    (ioctl_standby _ a .TEGRA_AUDIO_OUT_FLUSH trivial))

theorem inStandby_standby (input : StreamIn) : standby (s.inStandby a h input) =
    ((standby s).1, (standby s).2 || a.accepted (inRequest 1)) := by
  have hend : standby (s.inStandby a h input) =
      standby ((s.ioctl a .TEGRA_AUDIO_IN_STOP).ioctl a (inRequest 1)) :=
    getInput_standby _ a
  rw [hend, ioctl_inRequest, ioctl_standby s a .TEGRA_AUDIO_IN_STOP trivial]
  cases a.accepted (inRequest 1) <;> simp

theorem inWake_standby (input : StreamIn) : standby (s.inWake a h input) =
    ((standby s).1, (standby s).2 && !a.accepted (inRequest 0)) := by
  have hend : standby (s.inWake a h input) = standby (s.ioctl a (inRequest 0)) :=
    getInput_standby _ a
  rw [hend, ioctl_inRequest]
  cases a.accepted (inRequest 0) <;> simp

end Calls

/-- A call that touches neither standby flag of the driver and makes no stream
sleep or wake. -/
structure Quiet (s s' : Hal F) : Prop where
  standby : standby s' = standby s
  outs : ∀ h out, s'.outs h = some out → s.outs h = some out
  ins : ∀ h input, s'.ins h = some input → s.ins h = some input

theorem quiet_same {s s' : Hal F} (hs : standby s' = standby s) (ho : s'.outs = s.outs)
    (hi : s'.ins = s.ins) : Quiet s s' where
  standby := hs
  outs := fun _ _ h => ho ▸ h
  ins := fun _ _ h => hi ▸ h

theorem removed_some {α : Type} {f : ℕ → Option α} {h k : ℕ} {x : α}
    (hx : Function.update f h none k = some x) : f k = some x := by
  by_cases hk : k = h
  · rw [hk, Function.update_self] at hx
    cases hx
  · rwa [Function.update_of_ne hk] at hx

theorem setOutDevice_quiet (s : Hal F) (a : Answers) (id : ℕ) (hid : id ≠ CPCAP_AUDIO_OUT_STANDBY) :
    Quiet s (s.setOutDevice a id) := by
  apply quiet_same
  · exact ioctl_standby { s with adev := { s.adev with cpcapOutDevice := ⟨id, 1⟩ } } a
      (.CPCAP_AUDIO_OUT_SET_OUTPUT ⟨id, 1⟩) hid
  · simp [Hal.setOutDevice]
  · simp [Hal.setOutDevice]

theorem setInDevice_quiet (s : Hal F) (a : Answers) (id : ℕ) (hid : id ≠ CPCAP_AUDIO_IN_STANDBY) :
    Quiet s (s.setInDevice a id) := by
  apply quiet_same
  · exact ioctl_standby { s with adev := { s.adev with cpcapInDevice := ⟨id, 1⟩ } } a
      (.CPCAP_AUDIO_IN_SET_INPUT ⟨id, 1⟩) hid
  · simp [Hal.setInDevice]
  · simp [Hal.setInDevice]

theorem Quiet.trans {s t u : Hal F} (h : Quiet s t) (h' : Quiet t u) : Quiet s u where
  standby := h'.standby.trans h.standby
  outs := fun k out hk => h.outs k out (h'.outs k out hk)
  ins := fun k input hk => h.ins k input (h'.ins k input hk)

theorem soundDevice_cases (kv : Hal.KvPairs) (mask : BitVec 32) (connected disconnected id : ℕ)
    (h : Hal.soundDevice kv mask connected disconnected = some id) :
    id = connected ∨ id = disconnected := by
  simp only [Hal.soundDevice] at h
  split_ifs at h
  · exact .inr (Option.some.inj h).symm
  · exact .inl (Option.some.inj h).symm

theorem elim_quiet (s : Hal F) (f : ℕ → Hal F) (device : Option ℕ)
    (h : ∀ id, device = some id → Quiet s (f id)) : Quiet s (device.elim s f) := by
  cases device with
  | none => exact quiet_same rfl rfl rfl
  | some id => exact h id rfl

theorem setParameters_quiet (p : Platform F) (s : Hal F) (a : Answers) (kv : Hal.KvPairs) :
    Quiet s (s.adevSetParameters p a kv) := by
  apply Quiet.trans (elim_quiet s (s.setOutDevice a) _ _) (elim_quiet _ _ _ _)
  · intro id hid
    apply setOutDevice_quiet
    rcases soundDevice_cases kv _ _ _ _ hid with rfl | rfl <;> decide
  · intro id hid
    apply setInDevice_quiet
    rcases soundDevice_cases kv _ _ _ _ hid with rfl | rfl <;> decide

def Neutral : Call F → Prop
  | .outStandby _ | .outWrite _ | .adevOpenOutputStream _ _ => False
  | .inStandby _ | .inRead _ | .adevOpenInputStream _ _ => False
  | _ => True

theorem perform_quiet {p : Platform F} {s s' : Hal F} {a : Answers} {c : Call F}
    (h : perform p s a c = some s') (hc : Neutral c) : Quiet s s' := by
  cases c with
  | outGetSampleRate k | outSetSampleRate k rate | outQuery k q | inQuery k q =>
    obtain ⟨stream, _, rfl⟩ := Option.map_eq_some_iff.mp h
    exact quiet_same rfl rfl rfl
  | inGetSampleRate k =>
    obtain ⟨input, _, rfl⟩ := Option.map_eq_some_iff.mp h
    simp only [Hal.inGetSampleRate]
    split_ifs <;> exact quiet_same rfl rfl rfl
  | inSetSampleRate k rate =>
    obtain ⟨input, _, rfl⟩ := Option.map_eq_some_iff.mp h
    apply quiet_same
    · exact ioctl_standby { s with adev := { s.adev with cpcapInRate := rate } } a
        (.CPCAP_AUDIO_OUT_SET_RATE rate) trivial
    · simp [Hal.inSetSampleRate]
    · simp [Hal.inSetSampleRate]
  | adevCloseOutputStream k =>
    obtain ⟨out, _, rfl⟩ := Option.map_eq_some_iff.mp h
    exact ⟨rfl, fun _ _ hk => removed_some hk, fun _ _ hk => hk⟩
  | adevCloseInputStream k =>
    obtain ⟨input, _, rfl⟩ := Option.map_eq_some_iff.mp h
    exact ⟨rfl, fun _ _ hk => hk, fun _ _ hk => removed_some hk⟩
  | adevSetParameters kv =>
    obtain rfl := Option.some.inj h
    exact setParameters_quiet p s a kv
  | adevSetMasterVolume volume =>
    obtain rfl := Option.some.inj h
    apply quiet_same
    · exact ioctl_standby s a (.CPCAP_AUDIO_OUT_SET_VOLUME (p.toSteps volume)) trivial
    · simp [Hal.adevSetMasterVolume]
    · simp [Hal.adevSetMasterVolume]
  | adevSetMasterMute | adevSetMicMute | adevQuery | adevClose =>
    obtain rfl := Option.some.inj h
    exact quiet_same rfl rfl rfl
  | outStandby | outWrite | adevOpenOutputStream => exact hc.elim
  | inStandby | inRead | adevOpenInputStream => exact hc.elim

/-! ## Each direction is the latch of its streams -/

section Latches

variable {p : Platform F} {s s' : Hal F} {a : Answers} {l : Latch ℕ}

theorem outStandby_latched (hl : OutLatched s l) (h : ℕ) (out : StreamOut) :
    OutLatched (s.outStandby a h out) (l.apply (.sleep h (a.accepted (outRequest 1)))) := by
  have houts : (s.outStandby a h out).outs =
      Function.update s.outs h (some { out with standby := true }) := by
    simp [Hal.outStandby]
  have hset := congrArg Prod.fst (outStandby_standby s a h out)
  simp only [standby] at hset
  rw [OutLatched, houts, hset]
  exact latched_sleep hl h rfl _

theorem outWrite_latched (hl : OutLatched s l) (h : ℕ) (out : StreamOut)
    (hout : s.outs h = some out) :
    OutLatched (s.outWrite a h out) (l.apply (.use h (a.accepted (outRequest 0)))) := by
  simp only [Hal.outWrite]
  split_ifs with hs
  · have houts : (s.outWake a h out).outs =
        Function.update s.outs h (some { out with standby := false }) := by
      simp [Hal.outWake]
    have hset := congrArg Prod.fst (outWake_standby s a h out)
    simp only [standby] at hset
    rw [OutLatched, houts, hset]
    exact latched_wake hl h hout hs rfl _
  · exact latched_awake hl h hout (Bool.eq_false_iff.mpr hs) _

theorem openOutput_latched (hl : OutLatched s l) (h : ℕ) (opened : OutNode → Option ℕ)
    (hh : s.outs h = none) : OutLatched (s.adevOpenOutputStream h opened) (l.apply (.join h)) := by
  simp only [Hal.adevOpenOutputStream]
  split_ifs
  · exact latched_join hl h rfl
  · exact latched_refused hl h hh

theorem inStandby_latched (hl : InLatched s l) (h : ℕ) (input : StreamIn) :
    InLatched (s.inStandby a h input) (l.apply (.sleep h (a.accepted (inRequest 1)))) := by
  have hins : (s.inStandby a h input).ins =
      Function.update s.ins h (some { input with standby := true }) := by
    simp [Hal.inStandby]
  have hset := congrArg Prod.snd (inStandby_standby s a h input)
  simp only [standby] at hset
  rw [InLatched, hins, hset]
  exact latched_sleep hl h rfl _

theorem inRead_latched (hl : InLatched s l) (h : ℕ) (input : StreamIn)
    (hin : s.ins h = some input) :
    InLatched (s.inRead a h input) (l.apply (.use h (a.accepted (inRequest 0)))) := by
  simp only [Hal.inRead]
  split_ifs with hs
  · have hins : (s.inWake a h input).ins =
        Function.update s.ins h (some { input with standby := false }) := by
      simp [Hal.inWake]
    have hset := congrArg Prod.snd (inWake_standby s a h input)
    simp only [standby] at hset
    rw [InLatched, hins, hset]
    exact latched_wake hl h hin hs rfl _
  · exact latched_awake hl h hin (Bool.eq_false_iff.mpr hs) _

theorem openInput_latched (hl : InLatched s l) (h : ℕ) (opened : InNode → Option ℕ)
    (hh : s.ins h = none) : InLatched (s.adevOpenInputStream h opened) (l.apply (.join h)) := by
  simp only [Hal.adevOpenInputStream]
  split_ifs
  · exact latched_join hl h rfl
  · exact latched_refused hl h hh

theorem OutLatched.aside (hl : OutLatched s l) (hstandby : (standby s').1 = (standby s).1)
    (houts : s'.outs = s.outs) : OutLatched s' l :=
  latched_leave hl hstandby (fun _ _ h => houts ▸ h)

theorem InLatched.aside (hl : InLatched s l) (hstandby : (standby s').2 = (standby s).2)
    (hins : s'.ins = s.ins) : InLatched s' l :=
  latched_leave hl hstandby (fun _ _ h => hins ▸ h)

structure BothLatched (s : Hal F) (lo li : Latch ℕ) : Prop where
  out : OutLatched s lo
  input : InLatched s li

theorem step_latched {e : Event F} {lo li : Latch ℕ} (hstep : step p s e = some s')
    (hl : BothLatched s lo li) : BothLatched s' (lo.apply (outOp e)) (li.apply (inOp e)) := by
  obtain ⟨c, a⟩ := e
  obtain ⟨ho, hi⟩ := hl
  have h := step_perform hstep
  cases c with
  | outStandby k =>
    obtain ⟨out, hk, rfl⟩ := Option.map_eq_some_iff.mp h
    constructor
    · exact outStandby_latched ho k out
    · exact hi.aside (by rw [outStandby_standby]) (by simp [Hal.outStandby])
  | outWrite k =>
    obtain ⟨out, hk, rfl⟩ := Option.map_eq_some_iff.mp h
    constructor
    · exact outWrite_latched ho k out hk
    · simp only [Hal.outWrite]
      split_ifs
      · exact hi.aside (by rw [outWake_standby]) (by simp [Hal.outWake])
      · exact hi
  | adevOpenOutputStream k opened =>
    simp only [perform, Option.ite_none_right_eq_some, Option.some.injEq] at h
    obtain ⟨hk, rfl⟩ := h
    constructor
    · exact openOutput_latched ho k opened (Option.isNone_iff_eq_none.mp hk)
    · simp only [Hal.adevOpenOutputStream]
      split_ifs <;> exact hi
  | inStandby k =>
    obtain ⟨input, hk, rfl⟩ := Option.map_eq_some_iff.mp h
    constructor
    · exact ho.aside (by rw [inStandby_standby]) (by simp [Hal.inStandby])
    · exact inStandby_latched hi k input
  | inRead k =>
    obtain ⟨input, hk, rfl⟩ := Option.map_eq_some_iff.mp h
    constructor
    · simp only [Hal.inRead]
      split_ifs
      · exact ho.aside (by rw [inWake_standby]) (by simp [Hal.inWake])
      · exact ho
    · exact inRead_latched hi k input hk
  | adevOpenInputStream k opened =>
    simp only [perform, Option.ite_none_right_eq_some, Option.some.injEq] at h
    obtain ⟨hk, rfl⟩ := h
    constructor
    · simp only [Hal.adevOpenInputStream]
      split_ifs <;> exact ho
    · exact openInput_latched hi k opened (Option.isNone_iff_eq_none.mp hk)
  | _ =>
    have hq := perform_quiet h trivial
    exact ⟨latched_leave ho (congrArg Prod.fst hq.standby) hq.outs,
      latched_leave hi (congrArg Prod.snd hq.standby) hq.ins⟩

end Latches

/-! ## Transfers -/

def TransfersAwake (p : Platform F) (s : Hal F) (e : Event F) : Prop :=
  ∀ s', step p s e = some s' →
    (∀ h, e.call = .outWrite h → s'.driver.output.standby = false) ∧
    (∀ h, e.call = .inRead h → s'.driver.input.standby = false)

/-- No write or read finds an accepted standby request outstanding, unless its
own stream asks the driver to wake up and the driver accepts. -/
def Wakes (before : List (Event F)) (e : Event F) : Prop :=
  ((Latch.clear ℕ).applyAll (before.map outOp)).Awakes (outOp e) ∧
  ((Latch.clear ℕ).applyAll (before.map inOp)).Awakes (inOp e)

theorem outOp_use {e : Event F} {h : ℕ} : (∃ accepted, outOp e = .use h accepted) ↔
    e.call = .outWrite h := by
  obtain ⟨c, a⟩ := e
  cases c <;> simp [outOp]

theorem inOp_use {e : Event F} {h : ℕ} : (∃ accepted, inOp e = .use h accepted) ↔
    e.call = .inRead h := by
  obtain ⟨c, a⟩ := e
  cases c <;> simp [inOp]

section Runs

variable {p : Platform F} {s t : Hal F} {lo li : Latch ℕ}

theorem calls_latched {es : List (Event F)} (hr : Calls p s es t) (hl : BothLatched s lo li) :
    BothLatched t (lo.applyAll (es.map outOp)) (li.applyAll (es.map inOp)) := by
  induction hr generalizing lo li with
  | nil => exact hl
  | cons hs _ _ ih => exact ih (step_latched hs hl)

theorem transfersAwake_iff {e : Event F} (hl : BothLatched s lo li) (hs : step p s e = some t) :
    TransfersAwake p s e ↔ lo.Awakes (outOp e) ∧ li.Awakes (inOp e) := by
  have ht := step_latched hs hl
  rw [awakes_iff, awakes_iff, ← ht.out.set, ← ht.input.set]
  constructor
  · intro h
    obtain ⟨hout, hin⟩ := h t hs
    exact ⟨fun i _ hu => hout i (outOp_use.mp ⟨_, hu⟩), fun i _ hu => hin i (inOp_use.mp ⟨_, hu⟩)⟩
  · intro h t' ht'
    obtain rfl := Option.some.inj (hs.symm.trans ht')
    constructor
    · intro k hk
      obtain ⟨accepted, hu⟩ := outOp_use.mpr hk
      exact h.1 k accepted hu
    · intro k hk
      obtain ⟨accepted, hu⟩ := inOp_use.mpr hk
      exact h.2 k accepted hu

theorem adevOpen_latched (d : Driver) (hout : d.output.standby = false)
    (hin : d.input.standby = false) (a : Answers) (fd : ℕ) :
    BothLatched (adevOpen p d a fd) (Latch.clear ℕ) (Latch.clear ℕ) := by
  have hbase : ∀ u : Hal F, u.outs = (fun _ => none) → u.ins = (fun _ => none) →
      standby u = (false, false) → BothLatched u (Latch.clear ℕ) (Latch.clear ℕ) := by
    intro u ho hi hu
    have hno : ∀ k x, u.outs k ≠ some x := by simp [ho]
    have hni : ∀ k x, u.ins k ≠ some x := by simp [hi]
    constructor
    · exact ⟨fun k x hx => absurd hx (hno k x), congrArg Prod.fst hu⟩
    · exact ⟨fun k x hx => absurd hx (hni k x), congrArg Prod.snd hu⟩
  have hd : (d.output.standby, d.input.standby) = (false, false) := by rw [hout, hin]
  rw [adevOpen]
  apply iteInduction (motive := fun u => BothLatched u (Latch.clear ℕ) (Latch.clear ℕ))
  · intro _
    apply hbase
    · exact ioctl_outs _ a _
    · exact ioctl_ins _ a _
    · exact (ioctl_standby _ a (.CPCAP_AUDIO_OUT_SET_RATE 44100) trivial).trans hd
  · intro _
    exact hbase _ rfl rfl hd

def AlwaysAwake (p : Platform F) (s : Hal F) (es : List (Event F)) : Prop :=
  ∀ before e after u, es = before ++ e::after → Calls p s before u → TransfersAwake p u e

/-- In a run after `adev_open` on a driver that is awake every transfer finds it
awake exactly when every transfer that an accepted standby request precedes
wakes it itself. -/
theorem always_awake_iff (d : Driver) (hout : d.output.standby = false)
    (hin : d.input.standby = false) (a : Answers) (fd : ℕ) (es : List (Event F)) (t : Hal F)
    (hr : Calls p (adevOpen p d a fd) es t) :
    AlwaysAwake p (adevOpen p d a fd) es ↔
      ∀ before e after, es = before ++ e::after → Wakes before e := by
  have hopen := adevOpen_latched (p := p) d hout hin a fd
  constructor
  · rintro h before e after rfl
    obtain ⟨u, hu, hafter⟩ := hr.split
    cases hafter with
    | cons hs _ _ =>
      have hawake := h before e after u rfl hu
      exact (transfersAwake_iff (calls_latched hu hopen) hs).mp hawake
  · rintro h before e after u rfl hu v hv
    have hwakes := h before e after rfl
    exact (transfersAwake_iff (calls_latched hu hopen) hv).mpr hwakes v hv

end Runs

def nodesFrom (fd : ℕ) (n : OutNode) : Option ℕ := some (fd+OutNode.all.idxOf n)

def twoStreams : List (Event ℚ) :=
  succeeding [.adevOpenOutputStream 1 (nodesFrom 8), .adevOpenOutputStream 2 (nodesFrom 15),
    .outStandby 1, .outWrite 2]

theorem always_awake_two_streams : ∃ t,
    Calls stingray (adevOpen stingray silentDriver allAccepted 7) twoStreams t ∧
    (AlwaysAwake stingray (adevOpen stingray silentDriver allAccepted 7) twoStreams ↔
      ∀ before e after, twoStreams = before ++ e::after → Wakes before e) :=
  ⟨_, final_run rfl, always_awake_iff silentDriver rfl rfl allAccepted 7 twoStreams _
    (final_run rfl)⟩

/-- Two output streams, one goes to standby and the other is written to. -/
theorem write_in_standby :
    (∃ t, Calls stingray (adevOpen stingray silentDriver allAccepted 7) twoStreams t) ∧
    ¬ AlwaysAwake stingray (adevOpen stingray silentDriver allAccepted 7) twoStreams := by
  have hasleep : ¬ AlwaysAwake stingray (adevOpen stingray silentDriver allAccepted 7)
      twoStreams := by
    intro h
    have hwrite := h (twoStreams.take 3) ⟨.outWrite 2, allAccepted⟩ [] _ rfl (final_run rfl) _ rfl
    exact absurd (hwrite.1 2 rfl) (by decide +kernel)
  exact ⟨⟨_, final_run rfl⟩, hasleep⟩

end Wingray.AudioStandby
