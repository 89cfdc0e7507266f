import Wingray.GuardedRun

/-!
# The audio HAL and the CPCAP driver

One device structure, any number of output and input streams and one control
descriptor. A label carries the driver's answers, so every callback is a
function of the state.
-/

set_option autoImplicit false

namespace Wingray.AudioHardware
open Wingray.GuardedRun

abbrev Rate := BitVec 32

def CPCAP_AUDIO_OUT_SPEAKER : ℕ := 0
def CPCAP_AUDIO_OUT_HEADSET : ℕ := 1
def CPCAP_AUDIO_OUT_STANDBY : ℕ := 3
def CPCAP_AUDIO_IN_MIC1 : ℕ := 0
def CPCAP_AUDIO_IN_MIC2 : ℕ := 1
def CPCAP_AUDIO_IN_STANDBY : ℕ := 2

structure CpcapAudioStream where
  id : ℕ
  on : ℤ
  deriving DecidableEq

/-! ## The driver -/

inductive Request
  | CPCAP_AUDIO_OUT_SET_OUTPUT (stream : CpcapAudioStream)
  | CPCAP_AUDIO_OUT_GET_OUTPUT
  | CPCAP_AUDIO_OUT_SET_VOLUME (volume : BitVec 32)
  | CPCAP_AUDIO_OUT_GET_VOLUME
  | CPCAP_AUDIO_OUT_SET_RATE (rate : Rate)
  | CPCAP_AUDIO_OUT_GET_RATE
  | CPCAP_AUDIO_IN_SET_INPUT (stream : CpcapAudioStream)
  | CPCAP_AUDIO_IN_GET_INPUT
  | CPCAP_AUDIO_IN_GET_RATE
  | TEGRA_AUDIO_OUT_FLUSH
  | TEGRA_AUDIO_OUT_SET_NUM_BUFS (numBufs : ℕ)
  | TEGRA_AUDIO_IN_STOP
  deriving DecidableEq

/-- The arguments of the last requests the driver accepted on its output
side. -/
structure OutputSettings where
  rate : Rate
  volume : BitVec 32
  device : CpcapAudioStream
  standby : Bool
  numBufs : ℕ

structure InputSettings where
  rate : Rate
  device : CpcapAudioStream
  standby : Bool

structure Driver where
  output : OutputSettings
  input : InputSettings

def OutputSettings.accept (o : OutputSettings) : Request → OutputSettings
  | .CPCAP_AUDIO_OUT_SET_OUTPUT stream =>
    if stream.id = CPCAP_AUDIO_OUT_STANDBY then { o with standby := stream.on ≠ 0 }
    else { o with device := stream }
  | .CPCAP_AUDIO_OUT_SET_VOLUME volume => { o with volume := volume }
  | .CPCAP_AUDIO_OUT_SET_RATE rate => { o with rate := rate }
  | .TEGRA_AUDIO_OUT_SET_NUM_BUFS numBufs => { o with numBufs := numBufs }
  | _ => o

def InputSettings.accept (i : InputSettings) : Request → InputSettings
  | .CPCAP_AUDIO_IN_SET_INPUT stream =>
    if stream.id = CPCAP_AUDIO_IN_STANDBY then { i with standby := stream.on ≠ 0 }
    else { i with device := stream }
  | _ => i

def Driver.accept (d : Driver) (r : Request) : Driver := ⟨d.output.accept r, d.input.accept r⟩

structure Answers where
  accepted : Request → Bool
  outDevice : CpcapAudioStream
  inDevice : CpcapAudioStream

/-! ## The HAL -/

structure Platform (F : Type) where
  AUDIO_DEVICE_OUT_WIRED_HEADSET : BitVec 32
  AUDIO_DEVICE_IN_WIRED_HEADSET : BitVec 32
  toSteps : F → BitVec 32
  ofSteps : BitVec 32 → F

structure AudioDevice (F : Type) where
  init : Bool
  fdCpcapCtl : ℕ
  cpcapOutRate : Rate
  cpcapInRate : Rate
  cpcapOutDevice : CpcapAudioStream
  cpcapInDevice : CpcapAudioStream
  volMaster : F
  muteMaster : Bool
  muteMic : Bool

inductive OutNode
  | out | outCtl | outBt | outBtCtl | outBtIoCtl | outSpdif | outSpdifCtl
  deriving DecidableEq

def OutNode.all : List OutNode :=
  [.out, .outCtl, .outBt, .outBtCtl, .outBtIoCtl, .outSpdif, .outSpdifCtl]

inductive InNode
  | input | inputCtl
  deriving DecidableEq

def InNode.all : List InNode := [.input, .inputCtl]

theorem OutNode.mem_all (n : OutNode) : n ∈ OutNode.all := by cases n <;> decide

theorem InNode.mem_all (n : InNode) : n ∈ InNode.all := by cases n <;> decide

structure StreamOut where
  fd : OutNode → ℕ
  standby : Bool

structure StreamIn where
  fd : InNode → ℕ
  standby : Bool

/-- The live streams are kept under the pointers handed to the caller. -/
structure Hal (F : Type) where
  adev : AudioDevice F
  outs : ℕ → Option StreamOut
  ins : ℕ → Option StreamIn
  driver : Driver
  descriptors : List ℕ
  alive : Bool

variable {F : Type}

namespace Hal

def ioctl (s : Hal F) (a : Answers) (r : Request) : Hal F :=
  if a.accepted r then { s with driver := s.driver.accept r } else s

def getOutput (s : Hal F) (a : Answers) : Hal F :=
  if a.accepted .CPCAP_AUDIO_OUT_GET_OUTPUT then
    { s with adev := { s.adev with cpcapOutDevice := a.outDevice } }
  else s

def getInput (s : Hal F) (a : Answers) : Hal F :=
  if a.accepted .CPCAP_AUDIO_IN_GET_INPUT then
    { s with adev := { s.adev with cpcapInDevice := a.inDevice } }
  else s

/-! ### Output streams -/

def outGetSampleRate (s : Hal F) : Rate := s.adev.cpcapOutRate

def outStandby (s : Hal F) (a : Answers) (h : ℕ) (out : StreamOut) : Hal F :=
  let s := s.ioctl a .TEGRA_AUDIO_OUT_FLUSH
  let s := s.ioctl a (.CPCAP_AUDIO_OUT_SET_OUTPUT ⟨CPCAP_AUDIO_OUT_STANDBY, 1⟩)
  let s := s.getOutput a
  { s with outs := Function.update s.outs h (some { out with standby := true }) }

def outWake (s : Hal F) (a : Answers) (h : ℕ) (out : StreamOut) : Hal F :=
  let s := s.ioctl a (.CPCAP_AUDIO_OUT_SET_OUTPUT ⟨CPCAP_AUDIO_OUT_STANDBY, 0⟩)
  let s := s.getOutput a
  let s := s.ioctl a .TEGRA_AUDIO_OUT_FLUSH
  let s := s.ioctl a (.TEGRA_AUDIO_OUT_SET_NUM_BUFS 4)
  let s := s.ioctl a (.CPCAP_AUDIO_OUT_SET_RATE s.adev.cpcapOutRate)
  { s with outs := Function.update s.outs h (some { out with standby := false }) }

def outWrite (s : Hal F) (a : Answers) (h : ℕ) (out : StreamOut) : Hal F :=
  if out.standby then s.outWake a h out else s

/-! ### Input streams -/

def inGetSampleRate (s : Hal F) : Rate × Hal F :=
  let s := if s.adev.cpcapInRate = 0 then { s with adev := { s.adev with cpcapInRate := 8000 } }
    else s
  (s.adev.cpcapInRate, s)

def inSetSampleRate (s : Hal F) (a : Answers) (rate : Rate) : Hal F :=
  let s := { s with adev := { s.adev with cpcapInRate := rate } }
  s.ioctl a (.CPCAP_AUDIO_OUT_SET_RATE s.adev.cpcapInRate)

def inStandby (s : Hal F) (a : Answers) (h : ℕ) (input : StreamIn) : Hal F :=
  let s := s.ioctl a .TEGRA_AUDIO_IN_STOP
  let s := s.ioctl a (.CPCAP_AUDIO_IN_SET_INPUT ⟨CPCAP_AUDIO_IN_STANDBY, 1⟩)
  let s := s.getInput a
  { s with ins := Function.update s.ins h (some { input with standby := true }) }

def inWake (s : Hal F) (a : Answers) (h : ℕ) (input : StreamIn) : Hal F :=
  let s := s.ioctl a (.CPCAP_AUDIO_IN_SET_INPUT ⟨CPCAP_AUDIO_IN_STANDBY, 0⟩)
  let s := s.getInput a
  { s with ins := Function.update s.ins h (some { input with standby := false }) }

def inRead (s : Hal F) (a : Answers) (h : ℕ) (input : StreamIn) : Hal F :=
  if input.standby then s.inWake a h input else s

/-! ### The device -/

def adevOpenOutputStream (s : Hal F) (h : ℕ) (opened : OutNode → Option ℕ) : Hal F :=
  let s := { s with descriptors := s.descriptors ++ OutNode.all.filterMap opened }
  if hall : ∀ n ∈ OutNode.all, (opened n).isSome then
    let stream : StreamOut := { fd := fun n => (opened n).get (hall n n.mem_all), standby := false }
    { s with outs := Function.update s.outs h (some stream) }
  else s

def adevCloseOutputStream (s : Hal F) (h : ℕ) (out : StreamOut) : Hal F :=
  { s with
    descriptors := s.descriptors.filter (fun fd => fd ∉ OutNode.all.map out.fd)
    outs := Function.update s.outs h none }

def adevOpenInputStream (s : Hal F) (h : ℕ) (opened : InNode → Option ℕ) : Hal F :=
  let s := { s with descriptors := s.descriptors ++ InNode.all.filterMap opened }
  if hall : ∀ n ∈ InNode.all, (opened n).isSome then
    let stream : StreamIn := { fd := fun n => (opened n).get (hall n n.mem_all), standby := false }
    { s with ins := Function.update s.ins h (some stream) }
  else s

def adevCloseInputStream (s : Hal F) (h : ℕ) (input : StreamIn) : Hal F :=
  { s with
    descriptors := s.descriptors.filter (fun fd => fd ∉ InNode.all.map input.fd)
    ins := Function.update s.ins h none }

structure KvPairs where
  connect : Option (BitVec 32)
  disconnect : Option (BitVec 32)

def selects (device : Option (BitVec 32)) (mask : BitVec 32) : Bool :=
  device.any (fun device => device &&& mask = mask)

def soundDevice (kv : KvPairs) (mask : BitVec 32) (connected disconnected : ℕ) : Option ℕ :=
  if selects kv.disconnect mask then some disconnected
  else if selects kv.connect mask then some connected
  else none

def setOutDevice (s : Hal F) (a : Answers) (id : ℕ) : Hal F :=
  let s := { s with adev := { s.adev with cpcapOutDevice := ⟨id, 1⟩ } }
  s.ioctl a (.CPCAP_AUDIO_OUT_SET_OUTPUT s.adev.cpcapOutDevice)

def setInDevice (s : Hal F) (a : Answers) (id : ℕ) : Hal F :=
  let s := { s with adev := { s.adev with cpcapInDevice := ⟨id, 1⟩ } }
  s.ioctl a (.CPCAP_AUDIO_IN_SET_INPUT s.adev.cpcapInDevice)

def adevSetParameters (p : Platform F) (s : Hal F) (a : Answers) (kv : KvPairs) : Hal F :=
  let sndOutDevice := soundDevice kv p.AUDIO_DEVICE_OUT_WIRED_HEADSET CPCAP_AUDIO_OUT_HEADSET
    CPCAP_AUDIO_OUT_SPEAKER
  let sndInDevice := soundDevice kv p.AUDIO_DEVICE_IN_WIRED_HEADSET CPCAP_AUDIO_IN_MIC2
    CPCAP_AUDIO_IN_MIC1
  let s := sndOutDevice.elim s (s.setOutDevice a)
  sndInDevice.elim s (s.setInDevice a)

def adevSetMasterVolume (p : Platform F) (s : Hal F) (a : Answers) (volume : F) : Hal F :=
  let s := s.ioctl a (.CPCAP_AUDIO_OUT_SET_VOLUME (p.toSteps volume))
  { s with adev := { s.adev with volMaster := volume } }

def adevSetMasterMute (s : Hal F) (muted : Bool) : Hal F :=
  { s with adev := { s.adev with muteMaster := muted } }

def adevSetMicMute (s : Hal F) (state : Bool) : Hal F :=
  { s with adev := { s.adev with muteMic := state } }

def adevClose (s : Hal F) : Hal F := { s with alive := false }

end Hal

def zeroStream : CpcapAudioStream := ⟨0, 0⟩

/-- `adev_open` on a control descriptor, over a driver in any state. -/
def adevOpen (p : Platform F) (d : Driver) (a : Answers) (fd : ℕ) : Hal F :=
  let s : Hal F :=
    { adev :=
        { init := true
          fdCpcapCtl := fd
          cpcapOutRate := if a.accepted .CPCAP_AUDIO_OUT_GET_RATE then d.output.rate else 0
          cpcapInRate := if a.accepted .CPCAP_AUDIO_IN_GET_RATE then d.input.rate else 0
          cpcapOutDevice := if a.accepted .CPCAP_AUDIO_OUT_GET_OUTPUT then a.outDevice
            else zeroStream
          cpcapInDevice := if a.accepted .CPCAP_AUDIO_IN_GET_INPUT then a.inDevice
            else zeroStream
          volMaster := p.ofSteps
            (if a.accepted .CPCAP_AUDIO_OUT_GET_VOLUME then d.output.volume else 0)
          muteMaster := false
          muteMic := false }
      outs := fun _ => none
      ins := fun _ => none
      driver := d
      descriptors := [fd]
      alive := true }
  if s.adev.cpcapOutRate = 0 then
    let s := { s with adev := { s.adev with cpcapOutRate := 44100 } }
    s.ioctl a (.CPCAP_AUDIO_OUT_SET_RATE s.adev.cpcapOutRate)
  else s

/-! ## Runs of calls -/

inductive OutQuery
  | getBufferSize | getChannels | getFormat | setFormat | dump | setParameters | getParameters
  | addAudioEffect | removeAudioEffect | getLatency | setVolume | getRenderPosition
  | getNextWriteTimestamp

inductive InQuery
  | getBufferSize | getChannels | getFormat | setFormat | dump | setParameters | getParameters
  | addAudioEffect | removeAudioEffect | setGain | getInputFramesLost

inductive DeviceQuery
  | initCheck | setVoiceVolume | getMasterVolume | getMasterMute | setMode | getMicMute
  | getParameters | getInputBufferSize | dump

inductive Call (F : Type)
  | outGetSampleRate (h : ℕ)
  | outSetSampleRate (h : ℕ) (rate : Rate)
  | outStandby (h : ℕ)
  | outWrite (h : ℕ)
  | outQuery (h : ℕ) (q : OutQuery)
  | inGetSampleRate (h : ℕ)
  | inSetSampleRate (h : ℕ) (rate : Rate)
  | inStandby (h : ℕ)
  | inRead (h : ℕ)
  | inQuery (h : ℕ) (q : InQuery)
  | adevOpenOutputStream (h : ℕ) (opened : OutNode → Option ℕ)
  | adevCloseOutputStream (h : ℕ)
  | adevOpenInputStream (h : ℕ) (opened : InNode → Option ℕ)
  | adevCloseInputStream (h : ℕ)
  | adevSetParameters (kv : Hal.KvPairs)
  | adevSetMasterVolume (volume : F)
  | adevSetMasterMute (muted : Bool)
  | adevSetMicMute (state : Bool)
  | adevQuery (q : DeviceQuery)
  | adevClose

structure Event (F : Type) where
  call : Call F
  answers : Answers

def Event.Succeeds (e : Event F) : Prop := ∀ r, e.answers.accepted r = true

def Call.OnInput : Call F → Prop
  | .inGetSampleRate _ | .inSetSampleRate _ _ | .inStandby _ | .inRead _ | .inQuery _ _ => True
  | _ => False

/-- One call; a dead device, an unknown stream or a pointer still in use gives
no step. -/
def perform (p : Platform F) (s : Hal F) (a : Answers) : Call F → Option (Hal F)
  | .outGetSampleRate h | .outSetSampleRate h _ | .outQuery h _ => (s.outs h).map (fun _ => s)
  | .outStandby h => (s.outs h).map (s.outStandby a h)
  | .outWrite h => (s.outs h).map (s.outWrite a h)
  | .inGetSampleRate h => (s.ins h).map (fun _ => s.inGetSampleRate.2)
  | .inSetSampleRate h rate => (s.ins h).map (fun _ => s.inSetSampleRate a rate)
  | .inStandby h => (s.ins h).map (s.inStandby a h)
  | .inRead h => (s.ins h).map (s.inRead a h)
  | .inQuery h _ => (s.ins h).map (fun _ => s)
  | .adevOpenOutputStream h opened =>
    if (s.outs h).isNone then some (s.adevOpenOutputStream h opened) else none
  | .adevCloseOutputStream h => (s.outs h).map (s.adevCloseOutputStream h)
  | .adevOpenInputStream h opened =>
    if (s.ins h).isNone then some (s.adevOpenInputStream h opened) else none
  | .adevCloseInputStream h => (s.ins h).map (s.adevCloseInputStream h)
  | .adevSetParameters kv => some (s.adevSetParameters p a kv)
  | .adevSetMasterVolume volume => some (s.adevSetMasterVolume p a volume)
  | .adevSetMasterMute muted => some (s.adevSetMasterMute muted)
  | .adevSetMicMute state => some (s.adevSetMicMute state)
  | .adevQuery _ => some s
  | .adevClose => some s.adevClose

def step (p : Platform F) (s : Hal F) (e : Event F) : Option (Hal F) :=
  if s.alive then perform p s e.answers e.call else none

/-! ## What each callback leaves alone -/

section Frame

variable (s : Hal F) (a : Answers)

@[simp] theorem ioctl_adev (r : Request) : (s.ioctl a r).adev = s.adev := by
  simp only [Hal.ioctl]
  split_ifs <;> rfl

@[simp] theorem getOutput_cpcapOutRate :
    (s.getOutput a).adev.cpcapOutRate = s.adev.cpcapOutRate := by
  simp only [Hal.getOutput]
  split_ifs <;> rfl

@[simp] theorem getInput_cpcapOutRate :
    (s.getInput a).adev.cpcapOutRate = s.adev.cpcapOutRate := by
  simp only [Hal.getInput]
  split_ifs <;> rfl

@[simp] theorem getOutput_driver : (s.getOutput a).driver = s.driver := by
  simp only [Hal.getOutput]
  split_ifs <;> rfl

@[simp] theorem getInput_driver : (s.getInput a).driver = s.driver := by
  simp only [Hal.getInput]
  split_ifs <;> rfl

theorem ioctl_output (r : Request) (hr : ∀ o : OutputSettings, o.accept r = o) :
    (s.ioctl a r).driver.output = s.driver.output := by
  simp only [Hal.ioctl]
  split_ifs
  · exact hr _
  · rfl

@[simp] theorem ioctl_rate (r : Request) (hr : ∀ rate, r ≠ .CPCAP_AUDIO_OUT_SET_RATE rate) :
    (s.ioctl a r).driver.output.rate = s.driver.output.rate := by
  have hacc : (s.driver.output.accept r).rate = s.driver.output.rate := by
    simp only [OutputSettings.accept]
    split
    · split_ifs <;> rfl
    · rfl
    · exact absurd rfl (hr _)
    · rfl
    · rfl
  simp only [Hal.ioctl]
  split_ifs
  · exact hacc
  · rfl

theorem ioctl_setRate (rate : Rate) :
    (s.ioctl a (.CPCAP_AUDIO_OUT_SET_RATE rate)).driver.output.rate =
      if a.accepted (.CPCAP_AUDIO_OUT_SET_RATE rate) then rate else s.driver.output.rate := by
  simp only [Hal.ioctl]
  split_ifs <;> rfl

theorem outWake_rate (h : ℕ) (out : StreamOut)
    (hs : s.driver.output.rate = s.adev.cpcapOutRate) :
    (s.outWake a h out).driver.output.rate = s.adev.cpcapOutRate := by
  simp [Hal.outWake, ioctl_setRate, hs]

theorem inWake_output (h : ℕ) (input : StreamIn) :
    (s.inWake a h input).driver.output = s.driver.output := by
  simp only [Hal.inWake, getInput_driver]
  exact ioctl_output s a _ (fun _ => rfl)

theorem inStandby_output (h : ℕ) (input : StreamIn) :
    (s.inStandby a h input).driver.output = s.driver.output := by
  simp only [Hal.inStandby, getInput_driver]
  rw [ioctl_output _ a _ (fun _ => rfl), ioctl_output s a _ (fun _ => rfl)]

theorem inGetSampleRate_driver : s.inGetSampleRate.2.driver = s.driver := by
  simp only [Hal.inGetSampleRate]
  split_ifs <;> rfl

theorem inSetSampleRate_output (hs : s.driver.output.rate = s.adev.cpcapOutRate) :
    (s.inSetSampleRate a s.adev.cpcapOutRate).driver.output = s.driver.output := by
  simp only [Hal.inSetSampleRate, Hal.ioctl]
  split_ifs
  · simp only [Driver.accept, OutputSettings.accept, ← hs]
  · rfl

end Frame

section Steps

variable {p : Platform F} {s s' : Hal F} {a : Answers}

theorem setParameters_device (kv : Hal.KvPairs) :
    (s.adevSetParameters p a kv).adev.cpcapOutRate = s.adev.cpcapOutRate ∧
      (s.adevSetParameters p a kv).driver.output.rate = s.driver.output.rate := by
  simp only [Hal.adevSetParameters]
  cases Hal.soundDevice kv p.AUDIO_DEVICE_OUT_WIRED_HEADSET CPCAP_AUDIO_OUT_HEADSET
      CPCAP_AUDIO_OUT_SPEAKER <;>
    cases Hal.soundDevice kv p.AUDIO_DEVICE_IN_WIRED_HEADSET CPCAP_AUDIO_IN_MIC2
      CPCAP_AUDIO_IN_MIC1 <;>
    simp [Hal.setOutDevice, Hal.setInDevice]

theorem perform_cpcapOutRate {c : Call F} (h : perform p s a c = some s') :
    s'.adev.cpcapOutRate = s.adev.cpcapOutRate := by
  cases c with
  | outGetSampleRate k | outSetSampleRate k rate | outQuery k q | inQuery k q
  | adevCloseOutputStream k | adevCloseInputStream k =>
    obtain ⟨stream, _, rfl⟩ := Option.map_eq_some_iff.mp h
    rfl
  | outStandby k | inStandby k =>
    obtain ⟨stream, _, rfl⟩ := Option.map_eq_some_iff.mp h
    simp [Hal.outStandby, Hal.inStandby]
  | outWrite k =>
    obtain ⟨out, _, rfl⟩ := Option.map_eq_some_iff.mp h
    simp only [Hal.outWrite]
    split_ifs
    · simp [Hal.outWake]
    · rfl
  | inRead k =>
    obtain ⟨input, _, rfl⟩ := Option.map_eq_some_iff.mp h
    simp only [Hal.inRead]
    split_ifs
    · simp [Hal.inWake]
    · rfl
  | inGetSampleRate k =>
    obtain ⟨input, _, rfl⟩ := Option.map_eq_some_iff.mp h
    simp only [Hal.inGetSampleRate]
    split_ifs <;> rfl
  | inSetSampleRate k rate =>
    obtain ⟨input, _, rfl⟩ := Option.map_eq_some_iff.mp h
    simp [Hal.inSetSampleRate]
  | adevOpenOutputStream k opened =>
    simp only [perform, Option.ite_none_right_eq_some, Option.some.injEq] at h
    obtain ⟨_, rfl⟩ := h
    simp only [Hal.adevOpenOutputStream]
    split_ifs <;> rfl
  | adevOpenInputStream k opened =>
    simp only [perform, Option.ite_none_right_eq_some, Option.some.injEq] at h
    obtain ⟨_, rfl⟩ := h
    simp only [Hal.adevOpenInputStream]
    split_ifs <;> rfl
  | adevSetParameters kv =>
    obtain rfl := Option.some.inj h
    exact (setParameters_device kv).1
  | adevSetMasterVolume volume =>
    obtain rfl := Option.some.inj h
    simp [Hal.adevSetMasterVolume]
  | adevSetMasterMute | adevSetMicMute | adevQuery | adevClose =>
    obtain rfl := Option.some.inj h
    rfl

theorem perform_rate {c : Call F} (h : perform p s a c = some s') (hc : ¬ c.OnInput)
    (hs : s.driver.output.rate = s.adev.cpcapOutRate) :
    s'.driver.output.rate = s.adev.cpcapOutRate := by
  cases c with
  | outGetSampleRate k | outSetSampleRate k rate | outQuery k q
  | adevCloseOutputStream k | adevCloseInputStream k =>
    obtain ⟨stream, _, rfl⟩ := Option.map_eq_some_iff.mp h
    exact hs
  | outStandby k =>
    obtain ⟨out, _, rfl⟩ := Option.map_eq_some_iff.mp h
    simpa [Hal.outStandby] using hs
  | outWrite k =>
    obtain ⟨out, _, rfl⟩ := Option.map_eq_some_iff.mp h
    simp only [Hal.outWrite]
    split_ifs
    · exact outWake_rate s a k out hs
    · exact hs
  | inGetSampleRate | inSetSampleRate | inStandby | inRead | inQuery => exact absurd trivial hc
  | adevOpenOutputStream k opened =>
    simp only [perform, Option.ite_none_right_eq_some, Option.some.injEq] at h
    obtain ⟨_, rfl⟩ := h
    simp only [Hal.adevOpenOutputStream]
    split_ifs <;> exact hs
  | adevOpenInputStream k opened =>
    simp only [perform, Option.ite_none_right_eq_some, Option.some.injEq] at h
    obtain ⟨_, rfl⟩ := h
    simp only [Hal.adevOpenInputStream]
    split_ifs <;> exact hs
  | adevSetParameters kv =>
    obtain rfl := Option.some.inj h
    rw [(setParameters_device kv).2, hs]
  | adevSetMasterVolume volume =>
    obtain rfl := Option.some.inj h
    simpa [Hal.adevSetMasterVolume] using hs
  | adevSetMasterMute | adevSetMicMute | adevQuery | adevClose =>
    obtain rfl := Option.some.inj h
    exact hs

theorem perform_onInput {c : Call F} (h : perform p s a c = some s') (hc : c.OnInput)
    (hs : s.driver.output.rate = s.adev.cpcapOutRate)
    (hr : ∀ k rate, c = .inSetSampleRate k rate → rate = s.adev.cpcapOutRate) :
    s'.driver.output = s.driver.output := by
  cases c with
  | inGetSampleRate k =>
    obtain ⟨input, _, rfl⟩ := Option.map_eq_some_iff.mp h
    rw [inGetSampleRate_driver]
  | inSetSampleRate k rate =>
    obtain ⟨input, _, rfl⟩ := Option.map_eq_some_iff.mp h
    rw [hr k rate rfl]
    exact inSetSampleRate_output s a hs
  | inStandby k =>
    obtain ⟨input, _, rfl⟩ := Option.map_eq_some_iff.mp h
    exact inStandby_output s a k input
  | inRead k =>
    obtain ⟨input, _, rfl⟩ := Option.map_eq_some_iff.mp h
    simp only [Hal.inRead]
    split_ifs
    · exact inWake_output s a k input
    · rfl
  | inQuery k q =>
    obtain ⟨input, _, rfl⟩ := Option.map_eq_some_iff.mp h
    rfl
  | _ => exact hc.elim

end Steps

/-! ## Runs after `adev_open` -/

section Runs

variable {p : Platform F}

abbrev Calls (p : Platform F) : Hal F → List (Event F) → Hal F → Prop :=
  Run (step p) (fun _ _ => True)

structure AtRate (rate : Rate) (s : Hal F) : Prop where
  programmed : s.driver.output.rate = rate
  recorded : s.adev.cpcapOutRate = rate

def Event.InputRate (rate : Rate) (e : Event F) : Prop :=
  ∀ h r, e.call = .inSetSampleRate h r → r = rate

theorem step_perform {s s' : Hal F} {e : Event F} (h : step p s e = some s') :
    perform p s e.answers e.call = some s' := by
  simp only [step] at h
  split_ifs at h
  exact h

theorem step_atRate {rate : Rate} {s s' : Hal F} {e : Event F} (h : step p s e = some s')
    (hs : AtRate rate s) (he : e.InputRate rate) : AtRate rate s' := by
  obtain ⟨hprog, hrec⟩ := hs
  have hp := step_perform h
  have hsync : s.driver.output.rate = s.adev.cpcapOutRate := hprog.trans hrec.symm
  constructor
  case programmed =>
    by_cases hc : e.call.OnInput
    · rw [perform_onInput hp hc hsync (fun k r hk => (he k r hk).trans hrec.symm), hprog]
    · rw [perform_rate hp hc hsync, hrec]
  case recorded => exact (perform_cpcapOutRate hp).trans hrec

theorem calls_atRate {rate : Rate} {s t : Hal F} {es : List (Event F)} (hr : Calls p s es t)
    (hs : AtRate rate s) (he : ∀ e ∈ es, e.InputRate rate) : AtRate rate t :=
  (hr.restrict he).invariant _ (fun _ _ _ hi ho h => step_atRate h hi ho.2) hs

theorem calls_cpcapOutRate {s t : Hal F} {es : List (Event F)} (hr : Calls p s es t) :
    t.adev.cpcapOutRate = s.adev.cpcapOutRate :=
  hr.invariant (fun u => u.adev.cpcapOutRate = s.adev.cpcapOutRate)
    (fun _ _ _ hi _ h => (perform_cpcapOutRate (step_perform h)).trans hi) rfl

def openRate (d : Driver) : Rate := if d.output.rate = 0 then 44100 else d.output.rate

theorem adevOpen_atRate (d : Driver) (a : Answers) (fd : ℕ) (ha : ∀ r, a.accepted r = true) :
    AtRate (openRate d) (adevOpen p d a fd) := by
  simp only [adevOpen, openRate]
  simp only [ha, if_true]
  split_ifs with hz
  · exact ⟨by simp [ioctl_setRate, ha], by simp⟩
  · exact ⟨rfl, rfl⟩

/-- After every call the programmed output rate is the one
`out_get_sample_rate` reports, and no call on an input stream changes an
output setting. -/
def OutputKept (p : Platform F) (s : Hal F) (es : List (Event F)) : Prop :=
  ∀ before after t, es = before++after → Calls p s before t →
    t.driver.output.rate = t.outGetSampleRate ∧
    ∀ e rest t', after = e::rest → step p t e = some t' → e.call.OnInput →
      t'.driver.output = t.driver.output

theorem outputKept_of_inputRate {rate : Rate} {s : Hal F} {es : List (Event F)}
    (hs : AtRate rate s) (he : ∀ e ∈ es, e.InputRate rate) : OutputKept p s es := by
  rintro before after t rfl hb
  have ht := calls_atRate hb hs (fun e hm => he e (List.mem_append_left _ hm))
  have hsync := ht.programmed.trans ht.recorded.symm
  constructor
  · exact hsync
  · rintro e rest t' rfl hstep hc
    have hrate := he e (by simp)
    exact perform_onInput (step_perform hstep) hc hsync
      (fun k r hk => (hrate k r hk).trans ht.recorded.symm)

theorem inputRate_of_outputKept {s t : Hal F} {es : List (Event F)} (hr : Calls p s es t)
    (hsucceeds : ∀ e ∈ es, e.Succeeds) (hk : OutputKept p s es) :
    ∀ e ∈ es, e.InputRate s.adev.cpcapOutRate := by
  intro e he h rate hcall
  obtain ⟨before, after, rfl⟩ := List.append_of_mem he
  obtain ⟨u, hb, hafter⟩ := hr.split
  cases hafter with
  | @cons _ u' _ _ _ hstep _ _ =>
    have hb' : Calls p s (before ++ [e]) u' := hb.append (.cons hstep trivial (.nil u'))
    have hkept := (hk (before ++ [e]) after u' (by simp) hb').1
    have hprog : u'.driver.output.rate = rate := by
      have hp := step_perform hstep
      rw [hcall] at hp
      obtain ⟨input, _, rfl⟩ := Option.map_eq_some_iff.mp hp
      simp [Hal.inSetSampleRate, ioctl_setRate, hsucceeds e he _]
    rw [← hprog, hkept]
    exact calls_cpcapOutRate hb'

/-- In a run after `adev_open` with every ioctl succeeding the output settings
are kept exactly when every input rate asked for is the output rate. -/
theorem output_kept_iff (d : Driver) (a : Answers) (fd : ℕ) (es : List (Event F)) (t : Hal F)
    (ha : ∀ r, a.accepted r = true) (he : ∀ e ∈ es, e.Succeeds)
    (hr : Calls p (adevOpen p d a fd) es t) :
    OutputKept p (adevOpen p d a fd) es ↔ ∀ e ∈ es, e.InputRate (openRate d) := by
  have hopen := adevOpen_atRate (p := p) d a fd ha
  constructor
  · intro hk
    have h := inputRate_of_outputKept hr he hk
    rwa [hopen.recorded] at h
  · exact outputKept_of_inputRate hopen

end Runs

def stingray : Platform ℚ where
  AUDIO_DEVICE_OUT_WIRED_HEADSET := 4
  AUDIO_DEVICE_IN_WIRED_HEADSET := 0x80000010
  toSteps := fun volume => BitVec.ofInt 32 ⌊volume*15+1/2⌋
  ofSteps := fun volume => volume.toNat/15

def silentDriver : Driver := ⟨⟨0, 0, zeroStream, false, 0⟩, ⟨0, zeroStream, false⟩⟩

def allAccepted : Answers := ⟨fun _ => true, zeroStream, zeroStream⟩

def succeeding (cs : List (Call ℚ)) : List (Event ℚ) := cs.map (fun c => ⟨c, allAccepted⟩)

theorem succeeding_succeeds (cs : List (Call ℚ)) : ∀ e ∈ succeeding cs, e.Succeeds := by
  intro e he r
  obtain ⟨c, _, rfl⟩ := List.mem_map.mp he
  rfl

def playAndRecord (rate : Rate) : List (Event ℚ) :=
  succeeding [.adevOpenOutputStream 1 (fun _ => some 8), .outStandby 1, .outWrite 1,
    .adevOpenInputStream 2 (fun _ => some 9), .inSetSampleRate 2 rate]

theorem output_kept_recording : ∃ t,
    Calls stingray (adevOpen stingray silentDriver allAccepted 7) (playAndRecord 44100) t ∧
    (OutputKept stingray (adevOpen stingray silentDriver allAccepted 7) (playAndRecord 44100) ↔
      ∀ e ∈ playAndRecord 44100, e.InputRate (openRate silentDriver)) :=
  ⟨_, final_run rfl, output_kept_iff silentDriver allAccepted 7 (playAndRecord 44100) _
    (fun _ => rfl) (succeeding_succeeds _) (final_run rfl)⟩

/-- Recording at 8 kHz reprograms the output rate under a device that reports
44.1 kHz. -/
theorem input_rate_programs_output :
    (∃ t, Calls stingray (adevOpen stingray silentDriver allAccepted 7) (playAndRecord 8000) t) ∧
    (∀ e ∈ playAndRecord 8000, e.Succeeds) ∧
    ¬ OutputKept stingray (adevOpen stingray silentDriver allAccepted 7) (playAndRecord 8000) := by
  have hbroken : ¬ OutputKept stingray (adevOpen stingray silentDriver allAccepted 7)
      (playAndRecord 8000) := by
    intro h
    have hkept := (h (playAndRecord 8000) [] _ (by simp) (final_run rfl)).1
    exact absurd hkept (by decide +kernel)
  exact ⟨⟨_, final_run rfl⟩, succeeding_succeeds _, hbroken⟩

end Wingray.AudioHardware
