import Wingray.AudioHardware
import Wingray.ResourceLedger

/-!
# The file descriptors of the audio HAL

Any number of devices, each with its control descriptor, and the streams opened
through them. `open` hands out descriptors that the process does not hold.
-/

set_option autoImplicit false

namespace Wingray.AudioDescriptors
open Wingray.GuardedRun Wingray.ResourceLedger Wingray.AudioHardware

variable {F : Type}

structure Process (F : Type) where
  devices : ℕ → Option (AudioDevice F)
  outs : ℕ → Option StreamOut
  ins : ℕ → Option StreamIn
  driver : Driver
  descriptors : List ℕ

def Process.start (d : Driver) : Process F := ⟨fun _ => none, fun _ => none, fun _ => none, d, []⟩

/-- The part of the process that a callback of one device works on. -/
def Process.view (s : Process F) (adev : AudioDevice F) : Hal F where
  adev := adev
  outs := s.outs
  ins := s.ins
  driver := s.driver
  descriptors := s.descriptors
  alive := true

def Process.put (s : Process F) (dev : ℕ) (hal : Hal F) : Process F where
  devices := Function.update s.devices dev (some hal.adev)
  outs := hal.outs
  ins := hal.ins
  driver := hal.driver
  descriptors := hal.descriptors

/-- The calls with what they meet on the way: whether the module name matches,
whether the memory is there, and the result of each `open`. -/
inductive Call
  | adevOpen (dev : ℕ) (named allocated : Bool) (fd : Option ℕ) (a : Answers)
  | adevOpenOutputStream (dev h : ℕ) (allocated : Bool) (opened : OutNode → Option ℕ)
  | adevCloseOutputStream (dev h : ℕ)
  | adevOpenInputStream (dev h : ℕ) (allocated : Bool) (opened : InNode → Option ℕ)
  | adevCloseInputStream (dev h : ℕ)
  | adevClose (dev : ℕ)

def Process.adevOpen (p : Platform F) (s : Process F) (dev : ℕ) (named allocated : Bool)
    (fd : Option ℕ) (a : Answers) : Process F :=
  if named ∧ allocated then
    match fd with
    | some fd =>
      let hal := AudioHardware.adevOpen p s.driver a fd
      { s with
        devices := Function.update s.devices dev (some hal.adev)
        driver := hal.driver
        descriptors := s.descriptors ++ hal.descriptors }
    | none => s
  else s

/-- One call; a dead device, an unknown stream or a pointer still in use gives
no step. -/
def step (p : Platform F) (s : Process F) : Call → Option (Process F)
  | .adevOpen dev named allocated fd a =>
    if (s.devices dev).isSome then none else some (s.adevOpen p dev named allocated fd a)
  | .adevOpenOutputStream dev h allocated opened =>
    (s.devices dev).bind (fun adev =>
      if (s.outs h).isSome then none
      else if allocated then some (s.put dev ((s.view adev).adevOpenOutputStream h opened))
      else some s)
  | .adevCloseOutputStream dev h =>
    (s.devices dev).bind (fun adev =>
      (s.outs h).map (fun out => s.put dev ((s.view adev).adevCloseOutputStream h out)))
  | .adevOpenInputStream dev h allocated opened =>
    (s.devices dev).bind (fun adev =>
      if (s.ins h).isSome then none
      else if allocated then some (s.put dev ((s.view adev).adevOpenInputStream h opened))
      else some s)
  | .adevCloseInputStream dev h =>
    (s.devices dev).bind (fun adev =>
      (s.ins h).map (fun input => s.put dev ((s.view adev).adevCloseInputStream h input)))
  | .adevClose dev =>
    (s.devices dev).map (fun _ => { s with devices := Function.update s.devices dev none })

/-! ## The account -/

inductive Owner
  | control (dev : ℕ)
  | out (h : ℕ) (n : OutNode)
  | input (h : ℕ) (n : InNode)
  deriving DecidableEq

def own (s : Process F) : Owner → Option ℕ
  | .control dev => (s.devices dev).map AudioDevice.fdCpcapCtl
  | .out h n => (s.outs h).map (fun out => out.fd n)
  | .input h n => (s.ins h).map (fun input => input.fd n)

/-- The descriptors held are the control descriptor of each live device, the
seven of each live output stream and the two of each live input stream. -/
def Accounted (s : Process F) : Prop := Exact (own s) s.descriptors

/-- `open` gives descriptors that are not in use, one for each node. -/
def Fresh {N : Type} (held : List ℕ) (opened : N → Option ℕ) : Prop :=
  (∀ n fd, opened n = some fd → fd ∉ held) ∧
  ∀ n n' fd, opened n = some fd → opened n' = some fd → n = n'

def Permitted (s : Process F) : Call → Prop
  | .adevOpen _ _ _ fd _ => ∀ n, fd = some n → n ∉ s.descriptors
  | .adevOpenOutputStream _ _ _ opened => Fresh s.descriptors opened
  | .adevOpenInputStream _ _ _ opened => Fresh s.descriptors opened
  | _ => True

def Partial {N : Type} (opened : N → Option ℕ) : Prop :=
  (∃ n, opened n ≠ none) ∧ ∃ n, opened n = none

def Leaks : Call → Prop
  | .adevOpenOutputStream _ _ allocated opened => allocated = true ∧ Partial opened
  | .adevOpenInputStream _ _ allocated opened => allocated = true ∧ Partial opened
  | .adevClose _ => True
  | _ => False

/-! ## What the calls do to the owners -/

theorem own_control (s : Process F) (dev : ℕ) (adev : AudioDevice F)
    (hdev : s.devices dev = some adev) (hal : Hal F)
    (hfd : hal.adev.fdCpcapCtl = adev.fdCpcapCtl) (d : ℕ) :
    own (s.put dev hal) (.control d) = own s (.control d) := by
  simp only [own, Process.put]
  by_cases hd : d = dev
  · rw [hd, Function.update_self, hdev, Option.map_some, Option.map_some, hfd]
  · rw [Function.update_of_ne hd]

section Opens

variable {N : Type} {opened : N → Option ℕ}

theorem all_or_none (hp : ¬ Partial opened) :
    (∀ n, (opened n).isSome) ∨ ∀ n, opened n = none := by
  by_cases hn : ∃ n, opened n = none
  · refine .inr (fun n => ?_)
    by_contra hsome
    exact hp ⟨⟨n, hsome⟩, hn⟩
  · refine .inl (fun n => ?_)
    exact Option.isSome_iff_ne_none.mpr (fun hnone => hn ⟨n, hnone⟩)

variable {nodes : List N} (hall : ∀ n, n ∈ nodes)
include hall

theorem partial_not_all (hp : Partial opened) : ¬ ∀ n ∈ nodes, (opened n).isSome := by
  obtain ⟨_, k, hk⟩ := hp
  intro hsome
  simpa [hk] using hsome k (hall k)

theorem partial_inexact {O : Type} {own : O → Option ℕ} {held : List ℕ} (he : Exact own held)
    (hf : Fresh held opened) (hp : Partial opened) :
    ¬ Exact own (held ++ nodes.filterMap opened) := by
  obtain ⟨⟨n, hn⟩, _⟩ := hp
  obtain ⟨fd, hfd⟩ := Option.ne_none_iff_exists'.mp hn
  exact stray_inexact he (List.mem_filterMap.mpr ⟨n, hall n, hfd⟩) (hf.1 n fd hfd)

end Opens

section Hal

variable (s : Hal F) (h : ℕ)

theorem openOutput_descriptors (opened : OutNode → Option ℕ) :
    (s.adevOpenOutputStream h opened).descriptors =
      s.descriptors ++ OutNode.all.filterMap opened := by
  simp only [Hal.adevOpenOutputStream]
  split_ifs <;> rfl

theorem openOutput_adev (opened : OutNode → Option ℕ) :
    (s.adevOpenOutputStream h opened).adev = s.adev := by
  simp only [Hal.adevOpenOutputStream]
  split_ifs <;> rfl

theorem openOutput_ins (opened : OutNode → Option ℕ) :
    (s.adevOpenOutputStream h opened).ins = s.ins := by
  simp only [Hal.adevOpenOutputStream]
  split_ifs <;> rfl

theorem openOutput_outs_other (opened : OutNode → Option ℕ) {k : ℕ} (hk : k ≠ h) :
    (s.adevOpenOutputStream h opened).outs k = s.outs k := by
  simp only [Hal.adevOpenOutputStream]
  split_ifs
  · exact Function.update_of_ne hk _ _
  · rfl

theorem openOutput_outs (opened : OutNode → Option ℕ) (hh : s.outs h = none)
    (hp : ¬ Partial opened) (n : OutNode) :
    ((s.adevOpenOutputStream h opened).outs h).map (fun out => out.fd n) = opened n := by
  simp only [Hal.adevOpenOutputStream]
  rcases all_or_none hp with hall | hnone
  · rw [dif_pos (fun n _ => hall n)]
    simp
  · rw [dif_neg (fun hall => by simpa [hnone] using hall .out (OutNode.mem_all _))]
    rw [hh, hnone]
    rfl

theorem openInput_descriptors (opened : InNode → Option ℕ) :
    (s.adevOpenInputStream h opened).descriptors =
      s.descriptors ++ InNode.all.filterMap opened := by
  simp only [Hal.adevOpenInputStream]
  split_ifs <;> rfl

theorem openInput_adev (opened : InNode → Option ℕ) :
    (s.adevOpenInputStream h opened).adev = s.adev := by
  simp only [Hal.adevOpenInputStream]
  split_ifs <;> rfl

theorem openInput_outs (opened : InNode → Option ℕ) :
    (s.adevOpenInputStream h opened).outs = s.outs := by
  simp only [Hal.adevOpenInputStream]
  split_ifs <;> rfl

theorem openInput_ins_other (opened : InNode → Option ℕ) {k : ℕ} (hk : k ≠ h) :
    (s.adevOpenInputStream h opened).ins k = s.ins k := by
  simp only [Hal.adevOpenInputStream]
  split_ifs
  · exact Function.update_of_ne hk _ _
  · rfl

theorem openInput_ins (opened : InNode → Option ℕ) (hh : s.ins h = none)
    (hp : ¬ Partial opened) (n : InNode) :
    ((s.adevOpenInputStream h opened).ins h).map (fun input => input.fd n) = opened n := by
  simp only [Hal.adevOpenInputStream]
  rcases all_or_none hp with hall | hnone
  · rw [dif_pos (fun n _ => hall n)]
    simp
  · rw [dif_neg (fun hall => by simpa [hnone] using hall .input (InNode.mem_all _))]
    rw [hh, hnone]
    rfl

end Hal

/-! ## Calls that keep the account -/

section Streams

variable {s : Process F} {dev h : ℕ} {adev : AudioDevice F} (hdev : s.devices dev = some adev)
  (ha : Accounted s)
include hdev ha

theorem openOutput_accounted (hh : s.outs h = none) (opened : OutNode → Option ℕ)
    (hf : Fresh s.descriptors opened) (hp : ¬ Partial opened) :
    Accounted (s.put dev ((s.view adev).adevOpenOutputStream h opened)) := by
  simp only [Accounted, Process.put, openOutput_descriptors]
  apply exact_slots ha (fun n => .out h n) OutNode.all opened OutNode.mem_all (by decide)
  case hvacant =>
    intro n
    simp [own, hh]
  case htaken => exact openOutput_outs (s.view adev) h opened hh hp
  case hkeep =>
    intro o ho
    cases o with
    | control d => exact own_control s dev adev hdev _ (by rw [openOutput_adev]; rfl) d
    | out k n =>
      have hk : k ≠ h := fun hk => ho n (by rw [hk])
      simp only [own, openOutput_outs_other (s.view adev) h opened hk]
      rfl
    | input k n =>
      simp only [own, openOutput_ins]
      rfl
  case hfresh => exact hf.1
  case hdistinct => exact hf.2

theorem openInput_accounted (hh : s.ins h = none) (opened : InNode → Option ℕ)
    (hf : Fresh s.descriptors opened) (hp : ¬ Partial opened) :
    Accounted (s.put dev ((s.view adev).adevOpenInputStream h opened)) := by
  simp only [Accounted, Process.put, openInput_descriptors]
  apply exact_slots ha (fun n => .input h n) InNode.all opened InNode.mem_all (by decide)
  case hvacant =>
    intro n
    simp [own, hh]
  case htaken => exact openInput_ins (s.view adev) h opened hh hp
  case hkeep =>
    intro o ho
    cases o with
    | control d => exact own_control s dev adev hdev _ (by rw [openInput_adev]; rfl) d
    | out k n =>
      simp only [own, openInput_outs]
      rfl
    | input k n =>
      have hk : k ≠ h := fun hk => ho n (by rw [hk])
      simp only [own, openInput_ins_other (s.view adev) h opened hk]
      rfl
  case hfresh => exact hf.1
  case hdistinct => exact hf.2

theorem closeOutput_accounted {out : StreamOut} (hh : s.outs h = some out) :
    Accounted (s.put dev ((s.view adev).adevCloseOutputStream h out)) := by
  apply exact_vacate ha (fun n => .out h n) OutNode.all out.fd OutNode.mem_all
  case htaken =>
    intro n
    rw [own, hh, Option.map_some]
  case hvacant =>
    intro n
    simp [own, Process.put, Hal.adevCloseOutputStream]
  case hkeep =>
    intro o ho
    cases o with
    | control d => exact own_control s dev adev hdev _ rfl d
    | out k n =>
      have hk : k ≠ h := fun hk => ho n (by rw [hk])
      simp [own, Process.put, Hal.adevCloseOutputStream, Function.update_of_ne hk, Process.view]
    | input k n => rfl

theorem closeInput_accounted {input : StreamIn} (hh : s.ins h = some input) :
    Accounted (s.put dev ((s.view adev).adevCloseInputStream h input)) := by
  apply exact_vacate ha (fun n => .input h n) InNode.all input.fd InNode.mem_all
  case htaken =>
    intro n
    rw [own, hh, Option.map_some]
  case hvacant =>
    intro n
    simp [own, Process.put, Hal.adevCloseInputStream]
  case hkeep =>
    intro o ho
    cases o with
    | control d => exact own_control s dev adev hdev _ rfl d
    | out k n => rfl
    | input k n =>
      have hk : k ≠ h := fun hk => ho n (by rw [hk])
      simp [own, Process.put, Hal.adevCloseInputStream, Function.update_of_ne hk, Process.view]

end Streams

theorem adevOpen_descriptors (p : Platform F) (d : Driver) (a : Answers) (fd : ℕ) :
    (AudioHardware.adevOpen p d a fd).descriptors = [fd] ∧
    (AudioHardware.adevOpen p d a fd).adev.fdCpcapCtl = fd := by
  simp only [AudioHardware.adevOpen, Hal.ioctl]
  split_ifs <;> exact ⟨rfl, rfl⟩

theorem adevOpen_accounted (p : Platform F) {s : Process F} {dev : ℕ} (ha : Accounted s)
    (hdev : s.devices dev = none) (named allocated : Bool) (fd : Option ℕ) (a : Answers)
    (hf : ∀ n, fd = some n → n ∉ s.descriptors) :
    Accounted (s.adevOpen p dev named allocated fd a) := by
  simp only [Process.adevOpen]
  split_ifs
  · cases fd with
    | none => exact ha
    | some fd =>
      obtain ⟨hdesc, hfd⟩ := adevOpen_descriptors p s.driver a fd
      simp only [Accounted, hdesc]
      apply exact_slots ha (fun _ : Unit => .control dev) [()] (fun _ => some fd)
        (fun _ => List.mem_singleton_self _) (List.nodup_singleton _)
      case hvacant =>
        intro _
        rw [own, hdev, Option.map_none]
      case htaken =>
        intro _
        simp [own, hfd]
      case hkeep =>
        intro o ho
        cases o with
        | control d =>
          have hd : d ≠ dev := fun hd => ho () (by rw [hd])
          simp [own, Function.update_of_ne hd]
        | out k n => rfl
        | input k n => rfl
      case hfresh =>
        intro _ r hr
        exact hf r hr
      case hdistinct => exact fun _ _ _ _ _ => rfl
  · exact ha

/-! ## Calls that break it -/

theorem adevClose_unaccounted {s : Process F} {dev : ℕ} {adev : AudioDevice F} (ha : Accounted s)
    (hdev : s.devices dev = some adev) :
    ¬ Accounted { s with devices := Function.update s.devices dev none } := by
  have hown : own s (.control dev) = some adev.fdCpcapCtl := by
    rw [own, hdev, Option.map_some]
  apply unowned_inexact ((ha.owned _).mpr ⟨_, hown⟩)
  intro o ho
  have hold : own s o = some adev.fdCpcapCtl ∧ o ≠ .control dev := by
    cases o with
    | control d =>
      by_cases hd : d = dev
      · simp [own, hd] at ho
      · simp only [own, Function.update_of_ne hd] at ho
        exact ⟨ho, fun hc => hd (Owner.control.inj hc)⟩
    | out k n => exact ⟨ho, fun h => nomatch h⟩
    | input k n => exact ⟨ho, fun h => nomatch h⟩
  exact hold.2 (ha.unique _ _ _ hold.1 hown)

theorem own_same {s : Process F} {dev : ℕ} {adev : AudioDevice F}
    (hdev : s.devices dev = some adev) (hal : Hal F) (hadev : hal.adev = adev)
    (houts : hal.outs = s.outs) (hins : hal.ins = s.ins) : own (s.put dev hal) = own s := by
  funext o
  cases o with
  | control d => exact own_control s dev adev hdev hal (by rw [hadev]) d
  | out k n => rw [own, own, Process.put, houts]
  | input k n => rw [own, own, Process.put, hins]

theorem openOutput_unaccounted {s : Process F} {dev h : ℕ} {adev : AudioDevice F}
    (hdev : s.devices dev = some adev) (ha : Accounted s) (opened : OutNode → Option ℕ)
    (hf : Fresh s.descriptors opened) (hp : Partial opened) :
    ¬ Accounted (s.put dev ((s.view adev).adevOpenOutputStream h opened)) := by
  have hopen : (s.view adev).adevOpenOutputStream h opened =
      { s.view adev with descriptors := s.descriptors ++ OutNode.all.filterMap opened } := by
    simp only [Hal.adevOpenOutputStream]
    rw [dif_neg (partial_not_all OutNode.mem_all hp)]
    rfl
  rw [hopen, Accounted, own_same hdev _ rfl rfl rfl]
  exact partial_inexact OutNode.mem_all ha hf hp

theorem openInput_unaccounted {s : Process F} {dev h : ℕ} {adev : AudioDevice F}
    (hdev : s.devices dev = some adev) (ha : Accounted s) (opened : InNode → Option ℕ)
    (hf : Fresh s.descriptors opened) (hp : Partial opened) :
    ¬ Accounted (s.put dev ((s.view adev).adevOpenInputStream h opened)) := by
  have hopen : (s.view adev).adevOpenInputStream h opened =
      { s.view adev with descriptors := s.descriptors ++ InNode.all.filterMap opened } := by
    simp only [Hal.adevOpenInputStream]
    rw [dif_neg (partial_not_all InNode.mem_all hp)]
    rfl
  rw [hopen, Accounted, own_same hdev _ rfl rfl rfl]
  exact partial_inexact InNode.mem_all ha hf hp

/-! ## Runs -/

theorem step_accounted_iff (p : Platform F) {s s' : Process F} {c : Call}
    (h : step p s c = some s') (hp : Permitted s c) (ha : Accounted s) :
    Accounted s' ↔ ¬ Leaks c := by
  cases c with
  | adevOpen dev named allocated fd a =>
    simp only [step] at h
    split_ifs at h with hdev
    obtain rfl := Option.some.inj h
    exact iff_of_true (adevOpen_accounted p ha (Option.not_isSome_iff_eq_none.mp hdev) _ _ _ _ hp)
      (fun hl => hl)
  | adevOpenOutputStream dev h allocated opened =>
    obtain ⟨adev, hdev, hs⟩ := Option.bind_eq_some_iff.mp h
    split_ifs at hs with hh hm
    · obtain rfl := Option.some.inj hs
      have hnone := Option.not_isSome_iff_eq_none.mp hh
      by_cases hpart : Partial opened
      · exact iff_of_false (openOutput_unaccounted hdev ha opened hp hpart)
          (fun hl => hl ⟨hm, hpart⟩)
      · exact iff_of_true (openOutput_accounted hdev ha hnone opened hp hpart)
          (fun hl => hpart hl.2)
    · obtain rfl := Option.some.inj hs
      exact iff_of_true ha (fun hl => hm hl.1)
  | adevCloseOutputStream dev h =>
    obtain ⟨adev, hdev, hs⟩ := Option.bind_eq_some_iff.mp h
    obtain ⟨out, hh, rfl⟩ := Option.map_eq_some_iff.mp hs
    exact iff_of_true (closeOutput_accounted hdev ha hh) (fun hl => hl)
  | adevOpenInputStream dev h allocated opened =>
    obtain ⟨adev, hdev, hs⟩ := Option.bind_eq_some_iff.mp h
    split_ifs at hs with hh hm
    · obtain rfl := Option.some.inj hs
      have hnone := Option.not_isSome_iff_eq_none.mp hh
      by_cases hpart : Partial opened
      · exact iff_of_false (openInput_unaccounted hdev ha opened hp hpart)
          (fun hl => hl ⟨hm, hpart⟩)
      · exact iff_of_true (openInput_accounted hdev ha hnone opened hp hpart)
          (fun hl => hpart hl.2)
    · obtain rfl := Option.some.inj hs
      exact iff_of_true ha (fun hl => hm hl.1)
  | adevCloseInputStream dev h =>
    obtain ⟨adev, hdev, hs⟩ := Option.bind_eq_some_iff.mp h
    obtain ⟨input, hh, rfl⟩ := Option.map_eq_some_iff.mp hs
    exact iff_of_true (closeInput_accounted hdev ha hh) (fun hl => hl)
  | adevClose dev =>
    obtain ⟨adev, hdev, rfl⟩ := Option.map_eq_some_iff.mp h
    exact iff_of_false (adevClose_unaccounted ha hdev) (fun hl => hl trivial)

def KeepsAccount (p : Platform F) (s : Process F) (c : Call) : Prop :=
  ∀ s', step p s c = some s' → Accounted s'

theorem start_accounted (d : Driver) : Accounted (Process.start (F := F) d) := by
  apply exact_empty
  intro o
  cases o <;> rfl

/-- The account is exact after every call of a run exactly when no call of it
closes a device or opens a stream in part. -/
theorem descriptors_accounted_iff (p : Platform F) (d : Driver) (cs : List Call)
    (t : Process F) :
    Run (step p) (fun s c => Permitted s c ∧ KeepsAccount p s c) (.start d) cs t ↔
      Run (step p) (fun s c => Permitted s c ∧ ¬ Leaks c) (.start d) cs t := by
  constructor
  · intro hr
    apply hr.transfer Accounted _ (start_accounted d)
    intro s c s' ha hc hs
    exact ⟨⟨hc.1, (step_accounted_iff p hs hc.1 ha).mp (hc.2 s' hs)⟩, hc.2 s' hs⟩
  · intro hr
    apply hr.transfer Accounted _ (start_accounted d)
    intro s c s' ha hc hs
    have hkeeps : KeepsAccount p s c := fun u hu => (step_accounted_iff p hu hc.1 ha).mpr hc.2
    exact ⟨⟨hc.1, hkeeps⟩, hkeeps s' hs⟩

/-- A device is opened and closed again, and its control descriptor is left. -/
theorem closed_device_leaks : ∃ t,
    Run (step stingray) Permitted (.start silentDriver)
      [.adevOpen 0 true true (some 3) allAccepted, .adevClose 0] t ∧ ¬ Accounted t := by
  have hfree : Permitted (Process.start (F := ℚ) silentDriver)
      (.adevOpen 0 true true (some 3) allAccepted) := by
    intro n _
    exact List.not_mem_nil
  constructor
  constructor
  · exact .cons rfl hfree (.cons rfl trivial (.nil _))
  · refine adevClose_unaccounted ?_ rfl
    exact adevOpen_accounted stingray (start_accounted silentDriver) rfl true true (some 3)
      allAccepted hfree

end Wingray.AudioDescriptors
