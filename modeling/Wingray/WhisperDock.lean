import Wingray.GuardedRun
import Wingray.WhisperCrc

/-!
# The dock daemon and its uevent thread

The protocol thread authenticates a dock while the uevent thread follows the
dock switch. Both use `globalState` without a lock. One step is one access to
it or one device operation with its outcome; each cell of the identity arrays
remembers which attempt stored it.
-/

set_option autoImplicit false

namespace Wingray.WhisperDock
open Wingray.CellMemory Wingray.GuardedRun
open Wingray.WhisperCrc (Byte)

inductive GlobalState
  | UNDOCKED | DOCKED | DOCKED_IDSUCC | DOCKED_IDFAIL
  deriving DecidableEq

inductive Protocol
  | UART | HID
  deriving DecidableEq

def MAX_TRY_WAKEUP : ℕ := 4
def MAX_TRY_COMM : ℕ := 2
def MAX_TRY_IOCTL : ℕ := 5
def DOCK_TYPE_OFFSET : ℕ := 27
def ID_SUCCESS : BitVec 32 := 1
def CPCAP_WHISPER_ENABLE_UART : BitVec 32 := 2

def NO_DOCK : BitVec 32 := 0
def CAR_DOCK : BitVec 32 := 2
def LE_DOCK : BitVec 32 := 3
def HE_DOCK : BitVec 32 := 4

/-! ## The identity arrays -/

inductive Source
  | init
  | uart (attempt : ℕ)
  | hid (attempt : ℕ)
  deriving DecidableEq

structure Cell where
  value : Byte
  source : Source

/-- `copyResults`: the first `rxSize` bytes of a response, seven for the three
reads of the daemon. -/
def copyResults (rx : Fin 7 → Byte) (source : Source) (out : Memory Cell) : Memory Cell :=
  fun i => if h : i < 7 then ⟨rx ⟨i, h⟩, source⟩ else out i

def swapFuses (statusFuse : Memory Cell) : Memory Cell :=
  fun i => if i = 1 then statusFuse 3 else if i = 3 then statusFuse 1 else statusFuse i

def copyReport (report : Fin 64 → Byte) (source : Source) (target position n : ℕ)
    (out : Memory Cell) : Memory Cell :=
  fun i => if target ≤ i ∧ i < target+n then
    ⟨report (Fin.ofNat 64 (position+(i-target))), source⟩ else out i

def xintToChar (j : ℕ) : Char := "0123456789ABCDEF".toList.getD j '0'

def createOutput (inp : List Cell) : List Char :=
  inp.flatMap (fun c => [xintToChar (c.value.toNat/16), xintToChar (c.value.toNat%16)])

/-- `struct cpcap_whisper_request` as `doIoctl` fills it. -/
structure Request where
  cmd : BitVec 32
  dockId : List Char
  dockProp : List Char

def dockType (statusFuse : Memory Cell) : BitVec 32 :=
  let f := fun i => (statusFuse i).value
  if f 1 = 0x0A ∧ f 2 = 0xC0 then LE_DOCK
  else if f 1 = 0x12 ∧ f 2 = 0xC0 ∧ f 3 = 0x00 then CAR_DOCK
  else if f 1 = 0x1A ∧ f 2 = 0x80 ∧ f 3 = 0x00 then HE_DOCK
  else NO_DOCK

/-! ## The state of the two threads -/

/-- The three calls of `doIoctl`. -/
inductive Site
  | enableUart | verdict | failure
  deriving DecidableEq

inductive HidOp
  | statusQuery | statusRead | idQuery | idRead
  deriving DecidableEq

/-- Where the protocol thread stands. A Boolean argument is the local status
variable, a number the local try counter. -/
inductive Pc
  | semWait
  | checkUndocked
  | checkProtocol
  | ioctl (site : Site) (i : ℕ)
  | ioctlResult (site : Site) (i : ℕ) (ok : Bool)
  | loopGuard
  | branchUart
  | openChannel
  | wakeup (tryWakeup : ℕ)
  | wakeupCheck (tryWakeup : ℕ) (wakeupSuccess : Bool)
  | guard1 (wakeupSuccess : Bool)
  | read1
  | guard2 (ok : Bool)
  | read2
  | guard3 (ok : Bool)
  | read3
  | idSuccess
  | closeChannel
  | branchHid
  | hidGuard (op : HidOp) (ok : Bool)
  | hid (op : HidOp)
  | hidSuccess
  | checkSuccess
  | verdictSet
  | checkDocked
  | failSet
  | release
  | stopped
  deriving DecidableEq

inductive Phase
  | startHid
  | startUart
  | event (protocol : Protocol)
  deriving DecidableEq

def Phase.protocol : Phase → Protocol
  | .startHid => .HID
  | .startUart => .UART
  | .event protocol => protocol

inductive UeventPc
  | reading (phase : Phase)
  | setProtocol (phase : Phase)
  | posting (phase : Phase)
  | idle
  deriving DecidableEq

/-- What has happened so far, kept for the statements: an undock processed
with no dock since, one that no check of the protocol thread has looked at, the
number of the attempt, whether it took the UART branch and whether it skipped
the second read. -/
structure History where
  undocked : Bool
  undockedSinceCheck : Bool
  attempt : ℕ
  uartAttempt : Bool
  fuseSkipped : Bool

structure Dock where
  pc : Pc
  uevent : UeventPc
  globalState : GlobalState
  globalProtocol : Protocol
  sem : ℕ
  hidFd : ℤ
  tryComm : ℕ
  statusFuse : Memory Cell
  fsNo : Memory Cell
  romSn : Memory Cell
  request : Request
  history : History

def Dock.start (statusFuse fsNo romSn : Memory Byte) : Dock where
  pc := .semWait
  uevent := .reading .startHid
  globalState := .UNDOCKED
  globalProtocol := .UART
  sem := 0
  hidFd := -1
  tryComm := 0
  statusFuse := fun i => ⟨statusFuse i, .init⟩
  fsNo := fun i => ⟨fsNo i, .init⟩
  romSn := fun i => ⟨romSn i, .init⟩
  request := ⟨0, [], []⟩
  history := ⟨false, false, 0, false, false⟩

def Dock.blank : Dock := .start (fun _ => 0) (fun _ => 0) (fun _ => 0)

namespace Dock

def goto (s : Dock) (pc : Pc) : Dock := { s with pc := pc }

def check (s : Dock) (pc : Pc) : Dock :=
  { s with pc := pc, history := { s.history with undockedSinceCheck := false } }

def write (s : Dock) (g : GlobalState) (pc : Pc) : Dock := { s with pc := pc, globalState := g }

def usedCells (s : Dock) : List Cell :=
  [s.statusFuse 1, s.statusFuse 2, s.statusFuse 3, s.fsNo 1, s.fsNo 2, s.fsNo 3, s.fsNo 4,
    s.romSn 3, s.romSn 4]

def identity (s : Dock) : Request where
  cmd := ID_SUCCESS ||| (dockType s.statusFuse <<< DOCK_TYPE_OFFSET)
  dockId := createOutput ((s.usedCells.drop 3).take 4) ++ createOutput (s.usedCells.drop 7)
  dockProp := createOutput (s.usedCells.take 3)

/-! ## The protocol thread -/

def semWait (s : Dock) (ok : Bool) : Dock :=
  if ok then { s with sem := s.sem-1 }.goto .checkUndocked else s.goto .stopped

def checkUndocked (s : Dock) : Dock :=
  if s.globalState = .UNDOCKED then s.check .semWait else s.check .checkProtocol

def startIoctl (s : Dock) (site : Site) (request : Request) : Dock :=
  { s with request := request }.goto (.ioctl site 0)

def checkProtocol (s : Dock) : Dock :=
  if s.globalProtocol = .UART then
    s.startIoctl .enableUart ⟨CPCAP_WHISPER_ENABLE_UART, [], []⟩
  else { s with tryComm := 1 }.goto .loopGuard

def loopGuard (s : Dock) : Dock :=
  if s.tryComm = 0 then s.goto .release
  else if s.globalState = .DOCKED then
    { s with history := { s.history with
        attempt := s.history.attempt+1
        uartAttempt := false
        fuseSkipped := false } }.check .branchUart
  else s.check .release

/-- The end of `doIoctl`, which closes the HID descriptor, and the statement
after the call. -/
def leaveIoctl (s : Dock) : Site → Dock
  | .enableUart => { s with hidFd := if 0 < s.hidFd then -1 else s.hidFd, tryComm := 1 }.goto
      .loopGuard
  | .verdict => { s with hidFd := if 0 < s.hidFd then -1 else s.hidFd }.goto .verdictSet
  | .failure => { s with hidFd := if 0 < s.hidFd then -1 else s.hidFd }.goto .failSet

def ioctlResult (s : Dock) (site : Site) (i : ℕ) (ok : Bool) : Dock :=
  if ok then (s.write .DOCKED s.pc).leaveIoctl site
  else if i+1 < MAX_TRY_IOCTL then s.write .UNDOCKED (.ioctl site (i+1))
  else (s.write .UNDOCKED s.pc).leaveIoctl site

def branchUart (s : Dock) : Dock :=
  if s.globalProtocol = .UART then
    { s with history := { s.history with uartAttempt := true } }.goto .openChannel
  else s.goto .branchHid

def wakeup (s : Dock) (tryWakeup : ℕ) (ok : Bool) : Dock :=
  if ok then s.goto (.wakeupCheck 0 true)
  else if tryWakeup = MAX_TRY_WAKEUP then s.goto (.wakeupCheck 0 false)
  else s.goto (.wakeupCheck (tryWakeup+1) false)

def wakeupCheck (s : Dock) (tryWakeup : ℕ) (wakeupSuccess : Bool) : Dock :=
  if s.globalState = .UNDOCKED ∨ tryWakeup = 0 then s.check (.guard1 wakeupSuccess)
  else s.check (.wakeup tryWakeup)

def guard1 (s : Dock) (wakeupSuccess : Bool) : Dock :=
  if !wakeupSuccess then s.goto .closeChannel
  else if s.globalState = .DOCKED then s.check .read1
  else s.check .closeChannel

def read1 (s : Dock) : Option (Fin 7 → Byte) → Dock
  | some rx => { s with
      statusFuse := swapFuses (copyResults rx (.uart s.history.attempt) s.statusFuse) }.goto
        (.guard2 true)
  | none => s.goto (.guard2 false)

def guard2 (s : Dock) (ok : Bool) : Dock :=
  if s.globalState = .DOCKED ∧ ok then s.check .read2
  else { s with history := { s.history with fuseSkipped := true } }.check (.guard3 ok)

def read2 (s : Dock) : Option (Fin 7 → Byte) → Dock
  | some rx => { s with fsNo := copyResults rx (.uart s.history.attempt) s.fsNo }.goto
      (.guard3 true)
  | none => s.goto (.guard3 false)

def guard3 (s : Dock) (ok : Bool) : Dock :=
  if s.globalState = .DOCKED ∧ ok then s.check .read3 else s.check .closeChannel

def read3 (s : Dock) : Option (Fin 7 → Byte) → Dock
  | some rx => { s with romSn := copyResults rx (.uart s.history.attempt) s.romSn }.goto .idSuccess
  | none => s.goto .closeChannel

def branchHid (s : Dock) : Dock :=
  if s.globalProtocol = .HID then s.goto (.hid .statusQuery) else s.goto .checkSuccess

/-- The guard that follows a HID operation and the one that follows a skipped
operation are the same. -/
def afterHid (ok : Bool) : HidOp → Pc
  | .statusQuery => .hidGuard .statusRead ok
  | .statusRead => .hidGuard .idQuery ok
  | .idQuery => .hidGuard .idRead ok
  | .idRead => .checkSuccess

def hidGuard (s : Dock) (op : HidOp) (ok : Bool) : Dock :=
  if s.globalState = .DOCKED ∧ ok then s.check (.hid op) else s.check (afterHid ok op)

def storeReport (s : Dock) (report : Fin 64 → Byte) : Dock :=
  let source := Source.hid s.history.attempt
  { s with
    statusFuse := copyReport report source 1 6 3 s.statusFuse
    fsNo := copyReport report source 1 14 4 s.fsNo
    romSn := copyReport report source 3 18 2 s.romSn }

def checkSuccess (s : Dock) : Dock :=
  if s.globalState = .DOCKED_IDSUCC then
    (Dock.startIoctl { s with tryComm := 0 } .verdict s.identity).check (.ioctl .verdict 0)
  else s.check .checkDocked

def checkDocked (s : Dock) : Dock :=
  if s.globalState = .DOCKED then
    if s.tryComm = MAX_TRY_COMM then
      (Dock.startIoctl { s with tryComm := 0 } .failure ⟨0, [], []⟩).check (.ioctl .failure 0)
    else { s with tryComm := s.tryComm+1 }.check .loopGuard
  else s.check .loopGuard

end Dock

inductive Input
  | silent
  | outcome (ok : Bool)
  | response (rx : Option (Fin 7 → Byte))
  | report (bytes : Fin 64 → Byte)

def protStep (s : Dock) (input : Input) : Option Dock :=
  match s.pc, input with
  | .semWait, .outcome ok => if ok ∧ s.sem = 0 then none else some (s.semWait ok)
  | .checkUndocked, .silent => some s.checkUndocked
  | .checkProtocol, .silent => some s.checkProtocol
  | .ioctl site i, .outcome ok => some (s.goto (.ioctlResult site i ok))
  | .ioctlResult site i ok, .silent => some (s.ioctlResult site i ok)
  | .loopGuard, .silent => some s.loopGuard
  | .branchUart, .silent => some s.branchUart
  | .openChannel, .outcome ok => some (s.goto (if ok then .wakeup 1 else .closeChannel))
  | .wakeup tryWakeup, .outcome ok => some (s.wakeup tryWakeup ok)
  | .wakeupCheck tryWakeup wakeupSuccess, .silent => some (s.wakeupCheck tryWakeup wakeupSuccess)
  | .guard1 wakeupSuccess, .silent => some (s.guard1 wakeupSuccess)
  | .read1, .response rx => some (s.read1 rx)
  | .guard2 ok, .silent => some (s.guard2 ok)
  | .read2, .response rx => some (s.read2 rx)
  | .guard3 ok, .silent => some (s.guard3 ok)
  | .read3, .response rx => some (s.read3 rx)
  | .idSuccess, .silent => some (s.write .DOCKED_IDSUCC .closeChannel)
  | .closeChannel, .silent => some (s.goto .checkSuccess)
  | .branchHid, .silent => some s.branchHid
  | .hidGuard op ok, .silent => some (s.hidGuard op ok)
  | .hid .idRead, .report bytes => some ((s.storeReport bytes).goto .hidSuccess)
  | .hid .idRead, .outcome false => some (s.goto .checkSuccess)
  | .hid .idRead, .outcome true => none
  | .hid op, .outcome ok => some (s.goto (Dock.afterHid ok op))
  | .hidSuccess, .silent => some (s.write .DOCKED_IDSUCC .checkSuccess)
  | .checkSuccess, .silent => some s.checkSuccess
  | .verdictSet, .silent => some (s.write .DOCKED_IDSUCC .checkDocked)
  | .checkDocked, .silent => some s.checkDocked
  | .failSet, .silent => some (s.write .DOCKED_IDFAIL .loopGuard)
  | .release, .silent => some (s.goto .semWait)
  | _, _ => none

inductive ProtCase (s : Dock) : Input → Dock → Prop
  | semWait (ok : Bool) (hpc : s.pc = .semWait) (hsem : ok = true → s.sem ≠ 0) :
      ProtCase s (.outcome ok) (s.semWait ok)
  | checkUndocked (hpc : s.pc = .checkUndocked) : ProtCase s .silent s.checkUndocked
  | checkProtocol (hpc : s.pc = .checkProtocol) : ProtCase s .silent s.checkProtocol
  | ioctl (site : Site) (i : ℕ) (ok : Bool) (hpc : s.pc = .ioctl site i) :
      ProtCase s (.outcome ok) (s.goto (.ioctlResult site i ok))
  | ioctlResult (site : Site) (i : ℕ) (ok : Bool) (hpc : s.pc = .ioctlResult site i ok) :
      ProtCase s .silent (s.ioctlResult site i ok)
  | loopGuard (hpc : s.pc = .loopGuard) : ProtCase s .silent s.loopGuard
  | branchUart (hpc : s.pc = .branchUart) : ProtCase s .silent s.branchUart
  | openChannel (ok : Bool) (hpc : s.pc = .openChannel) :
      ProtCase s (.outcome ok) (s.goto (if ok then .wakeup 1 else .closeChannel))
  | wakeup (tryWakeup : ℕ) (ok : Bool) (hpc : s.pc = .wakeup tryWakeup) :
      ProtCase s (.outcome ok) (s.wakeup tryWakeup ok)
  | wakeupCheck (tryWakeup : ℕ) (wakeupSuccess : Bool)
      (hpc : s.pc = .wakeupCheck tryWakeup wakeupSuccess) :
      ProtCase s .silent (s.wakeupCheck tryWakeup wakeupSuccess)
  | guard1 (wakeupSuccess : Bool) (hpc : s.pc = .guard1 wakeupSuccess) :
      ProtCase s .silent (s.guard1 wakeupSuccess)
  | read1 (rx : Option (Fin 7 → Byte)) (hpc : s.pc = .read1) :
      ProtCase s (.response rx) (s.read1 rx)
  | guard2 (ok : Bool) (hpc : s.pc = .guard2 ok) : ProtCase s .silent (s.guard2 ok)
  | read2 (rx : Option (Fin 7 → Byte)) (hpc : s.pc = .read2) :
      ProtCase s (.response rx) (s.read2 rx)
  | guard3 (ok : Bool) (hpc : s.pc = .guard3 ok) : ProtCase s .silent (s.guard3 ok)
  | read3 (rx : Option (Fin 7 → Byte)) (hpc : s.pc = .read3) :
      ProtCase s (.response rx) (s.read3 rx)
  | idSuccess (hpc : s.pc = .idSuccess) : ProtCase s .silent (s.write .DOCKED_IDSUCC .closeChannel)
  | closeChannel (hpc : s.pc = .closeChannel) : ProtCase s .silent (s.goto .checkSuccess)
  | branchHid (hpc : s.pc = .branchHid) : ProtCase s .silent s.branchHid
  | hidGuard (op : HidOp) (ok : Bool) (hpc : s.pc = .hidGuard op ok) :
      ProtCase s .silent (s.hidGuard op ok)
  | hidReport (bytes : Fin 64 → Byte) (hpc : s.pc = .hid .idRead) :
      ProtCase s (.report bytes) ((s.storeReport bytes).goto .hidSuccess)
  | hid (op : HidOp) (ok : Bool) (hpc : s.pc = .hid op) (hop : op = .idRead → ok = false) :
      ProtCase s (.outcome ok) (s.goto (Dock.afterHid ok op))
  | hidSuccess (hpc : s.pc = .hidSuccess) :
      ProtCase s .silent (s.write .DOCKED_IDSUCC .checkSuccess)
  | checkSuccess (hpc : s.pc = .checkSuccess) : ProtCase s .silent s.checkSuccess
  | verdictSet (hpc : s.pc = .verdictSet) : ProtCase s .silent (s.write .DOCKED_IDSUCC .checkDocked)
  | checkDocked (hpc : s.pc = .checkDocked) : ProtCase s .silent s.checkDocked
  | failSet (hpc : s.pc = .failSet) : ProtCase s .silent (s.write .DOCKED_IDFAIL .loopGuard)
  | release (hpc : s.pc = .release) : ProtCase s .silent (s.goto .semWait)

theorem protStep_cases {s s' : Dock} {input : Input} (h : protStep s input = some s') :
    ProtCase s input s' := by
  revert h
  unfold protStep
  split <;> intro h <;> try obtain rfl := Option.some.inj h
  case h_1 _ ok hpc =>
    split_ifs at h with hsem
    obtain rfl := Option.some.inj h
    exact .semWait ok hpc (fun hok hz => hsem ⟨hok, hz⟩)
  case h_2 _ hpc => exact .checkUndocked hpc
  case h_3 _ hpc => exact .checkProtocol hpc
  case h_4 _ site i ok hpc => exact .ioctl site i ok hpc
  case h_5 _ site i ok hpc => exact .ioctlResult site i ok hpc
  case h_6 _ hpc => exact .loopGuard hpc
  case h_7 _ hpc => exact .branchUart hpc
  case h_8 _ ok hpc => exact .openChannel ok hpc
  case h_9 _ tryWakeup ok hpc => exact .wakeup tryWakeup ok hpc
  case h_10 _ tryWakeup wakeupSuccess hpc => exact .wakeupCheck tryWakeup wakeupSuccess hpc
  case h_11 _ wakeupSuccess hpc => exact .guard1 wakeupSuccess hpc
  case h_12 _ rx hpc => exact .read1 rx hpc
  case h_13 _ ok hpc => exact .guard2 ok hpc
  case h_14 _ rx hpc => exact .read2 rx hpc
  case h_15 _ ok hpc => exact .guard3 ok hpc
  case h_16 _ rx hpc => exact .read3 rx hpc
  case h_17 _ hpc => exact .idSuccess hpc
  case h_18 _ hpc => exact .closeChannel hpc
  case h_19 _ hpc => exact .branchHid hpc
  case h_20 _ op ok hpc => exact .hidGuard op ok hpc
  case h_21 _ bytes hpc => exact .hidReport bytes hpc
  case h_22 _ hpc => exact .hid .idRead false hpc (fun _ => rfl)
  case h_23 => cases h
  case h_24 _ op ok _ hop hpc => exact .hid op ok hpc (fun hid => Bool.eq_false_iff.mpr (hop hid))
  case h_25 _ hpc => exact .hidSuccess hpc
  case h_26 _ hpc => exact .checkSuccess hpc
  case h_27 _ hpc => exact .verdictSet hpc
  case h_28 _ hpc => exact .checkDocked hpc
  case h_29 _ hpc => exact .failSet hpc
  case h_30 _ hpc => exact .release hpc
  case h_31 => cases h

/-! ## The uevent thread -/

inductive Reading
  | failed | attached | notAttached

/-- A hidraw node: absent, or its descriptor with what `HIDIOCGRAWINFO` says. -/
inductive HidNode
  | absent
  | present (fd : ℤ) (info : Option (ℕ × ℕ))

/-- The search for the HD dock over the nodes in the order they are opened. -/
def hidSearch : List HidNode → ℤ → ℤ
  | [], hidFd => hidFd
  | .absent :: _, _ => -1
  | .present fd info :: rest, _ =>
    if info = some (0x22b8, 0x0938) then fd else hidSearch rest fd

inductive UeventInput
  | switch (reading : Reading)
  | nodes (nodes : List HidNode)
  | silent
  | uevent (protocol : Protocol)

def readSwitchState (s : Dock) (phase : Phase) : Reading → Dock
  | .failed => { s with uevent := .posting phase }
  | .attached => { s with
      uevent := .setProtocol phase
      globalState := .DOCKED
      history := { s.history with undocked := false, undockedSinceCheck := false } }
  | .notAttached => { s with
      uevent := .posting phase
      globalState := .UNDOCKED
      history := { s.history with undocked := true, undockedSinceCheck := true } }

def postStart (s : Dock) : Phase → Dock
  | .startHid =>
    if s.globalState = .DOCKED then { s with uevent := .idle, sem := s.sem+1 }
    else { s with uevent := .reading .startUart }
  | .startUart =>
    if s.globalState = .DOCKED then { s with uevent := .idle, sem := s.sem+1 }
    else { s with uevent := .idle }
  | .event _ => { s with uevent := .idle, sem := s.sem+1 }

def ueventStep (s : Dock) (input : UeventInput) : Option Dock :=
  match s.uevent, input with
  | .reading phase, .switch reading => some (readSwitchState s phase reading)
  | .setProtocol phase, .nodes nodes => some { s with
      uevent := .posting phase
      globalProtocol := phase.protocol
      hidFd := if phase.protocol = .HID then hidSearch nodes s.hidFd else s.hidFd }
  | .posting phase, .silent => some (postStart s phase)
  | .idle, .uevent protocol => some { s with uevent := .reading (.event protocol) }
  | _, _ => none

/-- A step of the uevent thread sees to the switch and leaves everything of
the protocol thread alone. -/
structure UeventFrame (s s' : Dock) : Prop where
  pc : s'.pc = s.pc
  tryComm : s'.tryComm = s.tryComm
  statusFuse : s'.statusFuse = s.statusFuse
  fsNo : s'.fsNo = s.fsNo
  romSn : s'.romSn = s.romSn
  attempt : s'.history.attempt = s.history.attempt
  uartAttempt : s'.history.uartAttempt = s.history.uartAttempt
  fuseSkipped : s'.history.fuseSkipped = s.history.fuseSkipped

inductive UeventMove (s s' : Dock) : Prop
  | other (hg : s'.globalState = s.globalState)
      (hu : s'.history.undocked = s.history.undocked)
      (hc : s'.history.undockedSinceCheck = s.history.undockedSinceCheck)
  | docked (hg : s'.globalState = .DOCKED) (hu : s'.history.undocked = false)
      (hc : s'.history.undockedSinceCheck = false)
  | undocked (hg : s'.globalState = .UNDOCKED) (hu : s'.history.undocked = true)
      (hc : s'.history.undockedSinceCheck = true)

theorem postStart_eq (s : Dock) (phase : Phase) :
    ∃ uevent sem, postStart s phase = { s with uevent := uevent, sem := sem } := by
  unfold postStart
  cases phase with
  | startHid | startUart =>
    simp only
    split_ifs <;> exact ⟨_, _, rfl⟩
  | event protocol => exact ⟨_, _, rfl⟩

theorem ueventFrame_update (s : Dock) (uevent : UeventPc) (globalState : GlobalState)
    (globalProtocol : Protocol) (sem : ℕ) (hidFd : ℤ) (undocked undockedSinceCheck : Bool) :
    UeventFrame s { s with
      uevent := uevent
      globalState := globalState
      globalProtocol := globalProtocol
      sem := sem
      hidFd := hidFd
      history := { s.history with
        undocked := undocked
        undockedSinceCheck := undockedSinceCheck } } where
  pc := rfl
  tryComm := rfl
  statusFuse := rfl
  fsNo := rfl
  romSn := rfl
  attempt := rfl
  uartAttempt := rfl
  fuseSkipped := rfl

theorem ueventStep_moves {s s' : Dock} {input : UeventInput} (h : ueventStep s input = some s') :
    UeventFrame s s' ∧ UeventMove s s' := by
  revert h
  unfold ueventStep
  split <;> intro h <;> try obtain rfl := Option.some.inj h
  case h_1 _ phase reading _ =>
    cases reading with
    | failed => exact ⟨ueventFrame_update s _ _ _ _ _ _ _, .other rfl rfl rfl⟩
    | attached => exact ⟨ueventFrame_update s _ _ _ _ _ _ _, .docked rfl rfl rfl⟩
    | notAttached => exact ⟨ueventFrame_update s _ _ _ _ _ _ _, .undocked rfl rfl rfl⟩
  case h_2 => exact ⟨ueventFrame_update s _ _ _ _ _ _ _, .other rfl rfl rfl⟩
  case h_3 _ phase _ =>
    obtain ⟨uevent, sem, hpost⟩ := postStart_eq s phase
    rw [hpost]
    exact ⟨ueventFrame_update s _ _ _ _ _ _ _, .other rfl rfl rfl⟩
  case h_4 => exact ⟨ueventFrame_update s _ _ _ _ _ _ _, .other rfl rfl rfl⟩
  case h_5 => cases h

inductive Label
  | protocol (input : Input)
  | uevent (input : UeventInput)

def step (s : Dock) : Label → Option Dock
  | .protocol input => protStep s input
  | .uevent input => ueventStep s input

end Wingray.WhisperDock
