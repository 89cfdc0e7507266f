import Wingray.WhisperDock
import Wingray.WhisperSerial

/-!
# The hidraw nodes of an attached dock

When the HID switch reads attached, the nodes are opened one after another until
one is the HD dock. The path is counted up in its last character, a node that is
something else is "closed" by the address of its path, and the first node that
cannot be opened ends the search.
-/

set_option autoImplicit false

namespace Wingray.WhisperHidraw
open Wingray.WhisperCrc Wingray.WhisperSerial
open Wingray.WhisperDock (GlobalState Protocol HidNode hidSearch)

def DOCK_ATTACHED : Byte := 0x31
def DOCK_NOT_ATTACHED : Byte := 0x30

structure DevInfo where
  vendor : BitVec 16
  product : BitVec 16

def DevInfo.isHdDock (info : DevInfo) : Prop :=
  info.vendor.toInt = 0x22b8 ∧ info.product.toInt = 0x0938

instance (info : DevInfo) : Decidable info.isHdDock := inferInstanceAs (Decidable (_ ∧ _))

/-- `/dev/hidrawN`, with what `HIDIOCGRAWINFO` says when it succeeds. -/
inductive Node
  | absent
  | present (info : Option DevInfo)

inductive File
  | switch (protocolType : Protocol)
  | hidraw (node : ℕ)
  | other
  deriving DecidableEq

structure Descriptor where
  fd : ℕ
  file : File
  deriving DecidableEq

/-- What the kernel decides: the number of hidraw nodes, the descriptor that
`open` returns, and the address of the path, which is no descriptor. -/
structure System where
  HIDRAW_MAX_DEVICES : ℕ
  newFd : List Descriptor → ℕ
  hidDevice : ℤ
  devices_pos : 0 < HIDRAW_MAX_DEVICES
  newFd_fresh : ∀ fds, newFd fds ∉ fds.map Descriptor.fd
  newFd_ne_address : ∀ fds, (newFd fds : ℤ) ≠ hidDevice

structure Daemon where
  globalState : GlobalState
  globalProtocol : Protocol
  hidFd : ℤ
  fds : List Descriptor

def Daemon.close (s : Daemon) (fd : ℤ) : Daemon :=
  { s with fds := s.fds.filter (fun d => (d.fd : ℤ) ≠ fd) }

def nodeAt (nodes : ℕ → Node) (c : Byte) : Node :=
  if 0x30 ≤ c ∧ c ≤ 0x39 then nodes (c.toNat-0x30) else .absent

def openNode (sys : System) (c : Byte) (s : Daemon) : Daemon := { s with
  hidFd := sys.newFd s.fds
  fds := ⟨sys.newFd s.fds, .hidraw (c.toNat-0x30)⟩::s.fds }

/-- The search, with the number of iterations left and the last character of
the path. -/
def search (sys : System) (nodes : ℕ → Node) : ℕ → Byte → Daemon → Daemon
  | 0, _, s => s
  | i+1, c, s =>
    match nodeAt nodes c with
    | .absent => { s with hidFd := -1 }
    | .present none => search sys nodes i (c+1) (openNode sys c s)
    | .present (some info) =>
      if info.isHdDock then openNode sys c s
      else search sys nodes i (c+1) ((openNode sys c s).close sys.hidDevice)

structure SwitchAnswer where
  opened : Bool
  reads : List Read

def attached (sys : System) (nodes : ℕ → Node) (protocolType : Protocol) (s : Daemon) : Daemon :=
  match protocolType with
  | .HID => search sys nodes sys.HIDRAW_MAX_DEVICES 0x30
      { s with globalState := .DOCKED, globalProtocol := .HID }
  | .UART => { s with globalState := .DOCKED, globalProtocol := .UART }

/-- `none` while the read of the switch has not returned. -/
def readSwitchState (sys : System) (nodes : ℕ → Node) (protocolType : Protocol)
    (a : SwitchAnswer) (s : Daemon) : Option Daemon :=
  if a.opened then
    let switchFd := sys.newFd s.fds
    let s := { s with fds := ⟨switchFd, .switch protocolType⟩::s.fds }
    match readRetried a.reads with
    | none => none
    | some (.bytes (b::_)) =>
      if b = DOCK_ATTACHED then some ((attached sys nodes protocolType s).close switchFd)
      else if b = DOCK_NOT_ATTACHED then
        some ({ s with globalState := .UNDOCKED }.close switchFd)
      else some (s.close switchFd)
    | some _ => some (s.close switchFd)
  else some s

/-! ## What the search leaves open -/

def Attached (a : SwitchAnswer) : Prop :=
  a.opened = true ∧ ∃ rest, readRetried a.reads = some (.bytes (DOCK_ATTACHED::rest))

def HdDock (n : Node) : Prop := ∃ info : DevInfo, n = .present (some info) ∧ info.isHdDock

def File.isHidraw : File → Bool
  | .hidraw _ => true
  | _ => false

def newHidraw (s s' : Daemon) : List Descriptor :=
  s'.fds.filter (fun d => d.file.isHidraw && decide (d ∉ s.fds))

/-- The one new hidraw descriptor is that of a dock, if there is one. -/
structure Found (sys : System) (nodes : ℕ → Node) (s s' : Daemon) : Prop where
  docked : (∃ n < sys.HIDRAW_MAX_DEVICES, HdDock (nodes n)) →
    ∃ n < sys.HIDRAW_MAX_DEVICES, ∃ fd : ℕ, HdDock (nodes n) ∧ s'.hidFd = fd ∧
      newHidraw s s' = [⟨fd, .hidraw n⟩]
  undocked : (¬ ∃ n < sys.HIDRAW_MAX_DEVICES, HdDock (nodes n)) →
    s'.hidFd < 0 ∧ newHidraw s s' = []

section Search

variable {sys : System} {nodes : ℕ → Node}

theorem close_mem {s : Daemon} {fd : ℤ} {d : Descriptor} :
    d ∈ (s.close fd).fds ↔ d ∈ s.fds ∧ (d.fd : ℤ) ≠ fd := by
  simp [Daemon.close]

theorem search_keeps (i : ℕ) (c : Byte) (s : Daemon) (d : Descriptor) (hd : d ∈ s.fds)
    (hne : (d.fd : ℤ) ≠ sys.hidDevice) : d ∈ (search sys nodes i c s).fds := by
  induction i generalizing c s with
  | zero => exact hd
  | succ i ih =>
    have hopen : d ∈ (openNode sys c s).fds := List.mem_cons_of_mem _ hd
    rw [search]
    split
    · exact hd
    · exact ih _ _ hopen
    · split_ifs
      · exact hopen
      · exact ih _ _ (close_mem.mpr ⟨hopen, hne⟩)

def DevInfo.ids (info : DevInfo) : ℕ × ℕ := (info.vendor.toNat, info.product.toNat)

theorem isHdDock_iff (info : DevInfo) : info.isHdDock ↔ some info.ids = some (0x22b8, 0x0938) := by
  have hv := info.vendor.isLt
  have hp := info.product.isLt
  simp only [DevInfo.isHdDock, DevInfo.ids, Option.some.injEq, Prod.mk.injEq, BitVec.toInt]
  split_ifs <;> omega

/-- The nodes as the search meets them, each with the descriptor it is given. -/
def met (sys : System) (nodes : ℕ → Node) : ℕ → Byte → Daemon → List HidNode
  | 0, _, _ => []
  | i+1, c, s =>
    match nodeAt nodes c with
    | .absent => [.absent]
    | .present none => .present (sys.newFd s.fds) none::met sys nodes i (c+1) (openNode sys c s)
    | .present (some info) => .present (sys.newFd s.fds) (some info.ids)::
        met sys nodes i (c+1) ((openNode sys c s).close sys.hidDevice)

theorem search_hidFd (i : ℕ) (c : Byte) (s : Daemon) :
    (search sys nodes i c s).hidFd = hidSearch (met sys nodes i c s) s.hidFd := by
  induction i generalizing c s with
  | zero => rfl
  | succ i ih =>
    rw [search, met]
    split
    · rfl
    · rw [ih, hidSearch, if_neg (by simp)]
      rfl
    · simp only [isHdDock_iff]
      rw [hidSearch]
      split_ifs
      · rfl
      · exact ih _ _

theorem search_first (i : ℕ) (s : Daemon) : search sys nodes (i+1) 0x30 s =
    match nodes 0 with
    | .absent => { s with hidFd := -1 }
    | .present none => search sys nodes i 0x31 (openNode sys 0x30 s)
    | .present (some info) =>
      if info.isHdDock then openNode sys 0x30 s
      else search sys nodes i 0x31 ((openNode sys 0x30 s).close sys.hidDevice) := rfl

variable (sys) in
theorem openNode_other (i : ℕ) (s : Daemon) (h : nodes 0 ≠ .absent) (hdock : ¬ HdDock (nodes 0)) :
    ⟨sys.newFd s.fds, .hidraw 0⟩ ∈ (search sys nodes (i+1) 0x30 s).fds := by
  have hopen : ⟨sys.newFd s.fds, .hidraw 0⟩ ∈ (openNode sys 0x30 s).fds := List.mem_cons_self
  have hne := sys.newFd_ne_address s.fds
  rw [search_first]
  split
  next h0 => exact absurd h0 h
  next => exact search_keeps _ _ _ _ hopen hne
  next info h0 =>
    rw [if_neg (fun hi => hdock ⟨info, h0, hi⟩)]
    exact search_keeps _ _ _ _ (close_mem.mpr ⟨hopen, hne⟩) hne

end Search

/-! ## The whole call -/

section Call

variable (sys : System) (nodes : ℕ → Node) (s : Daemon)

def noted : Daemon := { s with
  globalState := .DOCKED
  globalProtocol := .HID
  fds := ⟨sys.newFd s.fds, .switch .HID⟩::s.fds }

def searched : Daemon :=
  (search sys nodes sys.HIDRAW_MAX_DEVICES 0x30 (noted sys s)).close (sys.newFd s.fds)

theorem readSwitchState_attached (a : SwitchAnswer) (h : Attached a) :
    readSwitchState sys nodes .HID a s = some (searched sys nodes s) := by
  obtain ⟨hopened, rest, hread⟩ := h
  rw [readSwitchState, if_pos hopened, hread]
  rfl

theorem devices_succ : ∃ i, sys.HIDRAW_MAX_DEVICES = i+1 :=
  Nat.exists_eq_succ_of_ne_zero sys.devices_pos.ne'

theorem fresh_not_mem (fds : List Descriptor) (file : File) : ⟨sys.newFd fds, file⟩ ∉ fds :=
  fun hm => sys.newFd_fresh fds (List.mem_map_of_mem hm)

theorem newHidraw_kept (p : Descriptor → Bool) :
    (s.fds.filter p).filter (fun d => d.file.isHidraw && decide (d ∉ s.fds)) = [] := by
  apply List.filter_eq_nil_iff.mpr
  intro d hd
  simp [List.mem_of_mem_filter hd]

theorem first_absent (g : Daemon) (hg : g.fds = (noted sys s).fds) :
    newHidraw s (g.close (sys.newFd s.fds)) = [] := by
  simp only [newHidraw, Daemon.close, hg, noted]
  rw [List.filter_cons_of_neg (by simp)]
  exact newHidraw_kept s _

def firstFd : ℕ := sys.newFd (noted sys s).fds

theorem firstFd_ne : firstFd sys s ≠ sys.newFd s.fds := by
  intro h
  have hfresh := sys.newFd_fresh (noted sys s).fds
  exact hfresh (List.mem_map.mpr ⟨⟨sys.newFd s.fds, .switch .HID⟩, List.mem_cons_self, h.symm⟩)

theorem first_new : ⟨firstFd sys s, .hidraw 0⟩ ∉ s.fds := fun hm =>
  fresh_not_mem sys (noted sys s).fds _ (List.mem_cons_of_mem _ hm)

theorem first_dock : newHidraw s ((openNode sys 0x30 (noted sys s)).close (sys.newFd s.fds)) =
    [⟨firstFd sys s, .hidraw 0⟩] := by
  have hfds : ((openNode sys 0x30 (noted sys s)).close (sys.newFd s.fds)).fds =
      ⟨firstFd sys s, .hidraw 0⟩::s.fds.filter (fun d => (d.fd : ℤ) ≠ sys.newFd s.fds) := by
    have hne := firstFd_ne sys s
    have hopen : (openNode sys 0x30 (noted sys s)).fds =
        ⟨firstFd sys s, .hidraw 0⟩::⟨sys.newFd s.fds, .switch .HID⟩::s.fds := rfl
    rw [Daemon.close, hopen, List.filter_cons_of_pos (by simpa using hne),
      List.filter_cons_of_neg (by simp)]
  rw [newHidraw, hfds, List.filter_cons_of_pos (by simpa [File.isHidraw] using first_new sys s),
    newHidraw_kept s _]

theorem first_other (h : nodes 0 ≠ .absent) (hdock : ¬ HdDock (nodes 0)) :
    ⟨firstFd sys s, .hidraw 0⟩ ∈ newHidraw s (searched sys nodes s) := by
  obtain ⟨i, hi⟩ := devices_succ sys
  have hopen := openNode_other sys i (noted sys s) h hdock
  have hne := firstFd_ne sys s
  rw [searched, hi]
  apply List.mem_filter.mpr
  constructor
  · exact close_mem.mpr ⟨hopen, by exact_mod_cast hne⟩
  · simpa [File.isHidraw] using first_new sys s

theorem found_dock (hdock : HdDock (nodes 0)) : Found sys nodes s (searched sys nodes s) := by
  obtain ⟨i, hi⟩ := devices_succ sys
  have hnew := first_dock sys s
  obtain ⟨info, h0, hinfo⟩ := id hdock
  have hsearch : search sys nodes sys.HIDRAW_MAX_DEVICES 0x30 (noted sys s) =
      openNode sys 0x30 (noted sys s) := by
    rw [hi, search_first]
    simp only [h0, if_pos hinfo]
  rw [searched, hsearch]
  constructor
  case docked => exact fun _ => ⟨0, sys.devices_pos, firstFd sys s, hdock, rfl, hnew⟩
  case undocked => exact fun hno => absurd ⟨0, sys.devices_pos, hdock⟩ hno

theorem found_absent (h0 : nodes 0 = .absent) : Found sys nodes s (searched sys nodes s) ↔
    ∀ n < sys.HIDRAW_MAX_DEVICES, ¬ HdDock (nodes n) := by
  obtain ⟨i, hi⟩ := devices_succ sys
  have hsearch : search sys nodes sys.HIDRAW_MAX_DEVICES 0x30 (noted sys s) =
      { noted sys s with hidFd := -1 } := by
    rw [hi, search_first]
    simp only [h0]
  rw [searched, hsearch]
  constructor
  · intro hf n hn hd
    obtain ⟨_, _, fd, _, hfd, _⟩ := hf.docked ⟨n, hn, hd⟩
    simp only [Daemon.close] at hfd
    omega
  · intro hno
    constructor
    case docked => exact fun ⟨n, hn, hd⟩ => absurd hd (hno n hn)
    case undocked =>
      intro _
      constructor
      · show (-1 : ℤ) < 0
        decide
      · exact first_absent sys s _ rfl

theorem not_found_other (h0 : nodes 0 ≠ .absent) (hdock : ¬ HdDock (nodes 0)) :
    ¬ Found sys nodes s (searched sys nodes s) := by
  have hleft := first_other sys nodes s h0 hdock
  intro hf
  by_cases hany : ∃ n < sys.HIDRAW_MAX_DEVICES, HdDock (nodes n)
  · obtain ⟨n, _, fd, hn, _, hnew⟩ := hf.docked hany
    rw [hnew, List.mem_singleton] at hleft
    obtain rfl : 0 = n := File.hidraw.inj (congrArg Descriptor.file hleft)
    exact hdock hn
  · obtain ⟨_, hnew⟩ := hf.undocked hany
    rw [hnew] at hleft
    exact List.not_mem_nil hleft

end Call

/-- The search for an attached dock ends as intended exactly when node 0 is the
dock, or there is no node 0 and no dock either. -/
theorem hd_dock_found_iff (sys : System) (nodes : ℕ → Node) (s : Daemon) (a : SwitchAnswer)
    (h : Attached a) : ∃ s', readSwitchState sys nodes .HID a s = some s' ∧
      (Found sys nodes s s' ↔ HdDock (nodes 0) ∨
        (nodes 0 = .absent ∧ ∀ n < sys.HIDRAW_MAX_DEVICES, ¬ HdDock (nodes n))) := by
  refine ⟨_, readSwitchState_attached sys nodes s a h, ?_⟩
  by_cases hdock : HdDock (nodes 0)
  · exact iff_of_true (found_dock sys nodes s hdock) (.inl hdock)
  · rw [or_iff_right hdock]
    by_cases h0 : nodes 0 = .absent
    · rw [and_iff_right h0]
      exact found_absent sys nodes s h0
    · exact iff_of_false (not_found_other sys nodes s h0 hdock) (fun hd => h0 hd.1)

def nextFd : List Descriptor → ℕ
  | [] => 0
  | d::fds => max (d.fd+1) (nextFd fds)

theorem lt_nextFd (fds : List Descriptor) (d : Descriptor) (hd : d ∈ fds) : d.fd < nextFd fds := by
  induction fds with
  | nil => simp at hd
  | cons e fds ih =>
    rw [nextFd]
    rcases List.mem_cons.mp hd with rfl | hd
    · exact lt_of_lt_of_le (Nat.lt_succ_self _) (le_max_left _ _)
    · exact lt_of_lt_of_le (ih hd) (le_max_right _ _)

def kernel : System where
  HIDRAW_MAX_DEVICES := 64
  newFd := nextFd
  hidDevice := -1073742256
  devices_pos := by decide
  newFd_fresh := by
    intro fds hm
    obtain ⟨d, hd, heq⟩ := List.mem_map.mp hm
    exact absurd heq (lt_nextFd fds d hd).ne
  newFd_ne_address := by
    intro fds
    omega

def started : Daemon := ⟨.UNDOCKED, .UART, -1, [⟨2, .other⟩, ⟨1, .other⟩, ⟨0, .other⟩]⟩

def attachedAnswer : SwitchAnswer := ⟨true, [.interrupted, .bytes [0x31, 0x0A]]⟩

def hdDock : Node := .present (some ⟨0x22b8, 0x0938⟩)

def dockOnly : ℕ → Node
  | 0 => hdDock
  | _ => .absent

theorem hd_dock_found_only : ∃ s', readSwitchState kernel dockOnly .HID attachedAnswer started =
    some s' ∧ (Found kernel dockOnly started s' ↔ HdDock (dockOnly 0) ∨
      (dockOnly 0 = .absent ∧ ∀ n < kernel.HIDRAW_MAX_DEVICES, ¬ HdDock (dockOnly n))) :=
  hd_dock_found_iff kernel dockOnly started attachedAnswer ⟨rfl, [0x0A], rfl⟩

def keyboardFirst : ℕ → Node
  | 0 => .present (some ⟨0x04d9, 0x1503⟩)
  | 1 => hdDock
  | _ => .absent

/-- The dock is the second node: the descriptor of the keyboard before it stays
open. -/
theorem keyboard_left_open : ∃ s', readSwitchState kernel keyboardFirst .HID attachedAnswer started =
    some s' ∧ newHidraw started s' = [⟨5, .hidraw 1⟩, ⟨4, .hidraw 0⟩] ∧
      ¬ Found kernel keyboardFirst started s' := by
  refine ⟨_, rfl, by decide +kernel, ?_⟩
  intro hf
  obtain ⟨n, _, fd, _, _, hnew⟩ := hf.docked ⟨1, by decide, ⟨0x22b8, 0x0938⟩, rfl, by decide⟩
  have hlength := congrArg List.length hnew
  revert hlength
  rw [List.length_singleton]
  decide +kernel

end Wingray.WhisperHidraw
