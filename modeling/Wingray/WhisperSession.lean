import Wingray.WhisperCommand
import Wingray.WhisperWake
import Wingray.WhisperIdentity

/-!
# The daemon on the line

The protocol thread makes its calls of the driver on one memory and one line, with the
uevent thread between them. Every finished read is kept with the attempt it was made in
and with what the kernel answered.
-/

set_option autoImplicit false

namespace Wingray.WhisperSession
open Wingray.CellMemory Wingray.GuardedRun Wingray.WhisperExchange Wingray.WhisperRaw
open Wingray.WhisperReceive Wingray.WhisperSend Wingray.WhisperLine Wingray.WhisperCommand
open Wingray.WhisperWake Wingray.WhisperDock
open Wingray.WhisperCrc (Byte Word)
open Wingray.WhisperSerial (maxBufLen readyPass)

structure ReadCall where
  attempt : ℕ
  zone : Byte
  address : Word
  turns : List Turn

structure Session where
  dock : Dock
  memory : Memory Byte
  line : Line
  opened : Bool
  reads : List ReadCall

inductive Event
  | openChannel (opened : Bool) (attr : Attributes)
  | wakeup (turn : WakeTurn)
  | read (turns : List Turn)
  | closeChannel (writes : List Write)
  | other (l : Label)

def readOf : Pc → Option (Byte × Word)
  | .read1 => some (0x01, 0x0002)
  | .read2 => some (0x01, 0x0003)
  | .read3 => some (0x00, 0x0000)
  | _ => none

def callsDriver : Pc → Bool
  | .openChannel | .wakeup _ | .read1 | .read2 | .read3 | .closeChannel => true
  | _ => false

/-- What `copyResults` finds in the receive buffer after a success. -/
def resultOf (S : Statics) (ex : Exchange) : Option (Fin 7 → Byte) :=
  if ex.status = shaSuccess then some (fun i => ex.memory (S.receicebuf+i)) else none

/-- The commands go to the line; the tokens of the receives are left out. -/
def Line.take (l : Line) (sent : List Sent) : Line := sent.foldl (fun l t => l.write t.taken) l

def step (S : Statics) (s : Session) : Event → Option Session
  | .openChannel opened attr =>
    if s.dock.pc = .openChannel then
      let (status, line) := shapOpenChannel opened attr s.line
      (protStep s.dock (.outcome (status = shaSuccess))).map
        (fun dock => { s with dock := dock, line := line, opened := opened })
    else none
  | .wakeup turn =>
    match s.dock.pc with
    | .wakeup _ => do
      let t ← shapWakeDevice S turn s.line s.memory
      let dock ← protStep s.dock (.outcome (t.status = shaSuccess))
      return { s with dock := dock, line := t.line, memory := t.memory }
    | _ => none
  | .read turns => do
    let (zone, address) ← readOf s.dock.pc
    let report ← shacRead S zone address turns s.memory
    let dock ← protStep s.dock (.response (resultOf S report.exchange))
    return { s with
      dock := dock
      memory := report.exchange.memory
      line := Line.take s.line report.sent
      reads := ⟨s.dock.history.attempt, zone, address, turns⟩ :: s.reads }
  | .closeChannel writes =>
    if s.dock.pc = .closeChannel then do
      let (_, line) ← shapCloseChannel writes s.line
      let dock ← protStep s.dock .silent
      return { s with dock := dock, line := line, opened := false }
    else none
  | .other l =>
    match l with
    | .protocol input =>
      if callsDriver s.dock.pc then none
      else (protStep s.dock input).map (fun dock => { s with dock := dock })
    | .uevent input => (ueventStep s.dock input).map (fun dock => { s with dock := dock })

inductive StepCase (S : Statics) (s : Session) : Event → Session → Prop
  | openChannel (opened : Bool) (attr : Attributes) (d : Dock) (hpc : s.dock.pc = .openChannel)
      (hd : protStep s.dock (.outcome opened) = some d) :
      StepCase S s (.openChannel opened attr) { s with
        dock := d, line := (shapOpenChannel opened attr s.line).2, opened := opened }
  | wakeup (turn : WakeTurn) (n : ℕ) (t : Woken) (d : Dock) (hpc : s.dock.pc = .wakeup n)
      (ht : shapWakeDevice S turn s.line s.memory = some t)
      (hd : protStep s.dock (.outcome (t.status = shaSuccess)) = some d) :
      StepCase S s (.wakeup turn) { s with dock := d, line := t.line, memory := t.memory }
  | read (turns : List Turn) (zone : Byte) (address : Word) (report : Report) (d : Dock)
      (hread : readOf s.dock.pc = some (zone, address))
      (hr : shacRead S zone address turns s.memory = some report)
      (hd : protStep s.dock (.response (resultOf S report.exchange)) = some d) :
      StepCase S s (.read turns) { s with
        dock := d, memory := report.exchange.memory, line := Line.take s.line report.sent,
        reads := ⟨s.dock.history.attempt, zone, address, turns⟩::s.reads }
  | closeChannel (writes : List Write) (ret : Status) (line : Line) (d : Dock)
      (hpc : s.dock.pc = .closeChannel) (hl : shapCloseChannel writes s.line = some (ret, line))
      (hd : protStep s.dock .silent = some d) :
      StepCase S s (.closeChannel writes) { s with dock := d, line := line, opened := false }
  | protocol (input : Input) (d : Dock) (hpc : callsDriver s.dock.pc = false)
      (hd : protStep s.dock input = some d) :
      StepCase S s (.other (.protocol input)) { s with dock := d }
  | uevent (input : UeventInput) (d : Dock) (hd : ueventStep s.dock input = some d) :
      StepCase S s (.other (.uevent input)) { s with dock := d }

theorem step_cases {S : Statics} {s s' : Session} {e : Event} (h : step S s e = some s') :
    StepCase S s e s' := by
  cases e with
  | openChannel opened attr =>
    simp only [step] at h
    split_ifs at h with hpc
    obtain ⟨d, hd, rfl⟩ := Option.map_eq_some_iff.mp h
    have hopened : decide ((shapOpenChannel opened attr s.line).1 = shaSuccess) = opened := by
      cases opened <;> rfl
    rw [hopened] at hd
    exact .openChannel opened attr d hpc hd
  | wakeup turn =>
    simp only [step] at h
    split at h
    next n hpc =>
      obtain ⟨t, ht, h⟩ := Option.bind_eq_some_iff.mp h
      obtain ⟨d, hd, h⟩ := Option.bind_eq_some_iff.mp h
      obtain rfl := Option.some.inj h
      exact .wakeup turn n t d hpc ht hd
    next => cases h
  | read turns =>
    obtain ⟨⟨zone, address⟩, hread, h⟩ := Option.bind_eq_some_iff.mp h
    obtain ⟨report, hr, h⟩ := Option.bind_eq_some_iff.mp h
    obtain ⟨d, hd, h⟩ := Option.bind_eq_some_iff.mp h
    obtain rfl := Option.some.inj h
    exact .read turns zone address report d hread hr hd
  | closeChannel writes =>
    simp only [step] at h
    split_ifs at h with hpc
    obtain ⟨⟨ret, line⟩, hl, h⟩ := Option.bind_eq_some_iff.mp h
    obtain ⟨d, hd, h⟩ := Option.bind_eq_some_iff.mp h
    obtain rfl := Option.some.inj h
    exact .closeChannel writes ret line d hpc hl hd
  | other l =>
    cases l with
    | protocol input =>
      simp only [step] at h
      split_ifs at h with hpc
      obtain ⟨d, hd, rfl⟩ := Option.map_eq_some_iff.mp h
      exact .protocol input d (Bool.eq_false_iff.mpr hpc) hd
    | uevent input =>
      obtain ⟨d, hd, rfl⟩ := Option.map_eq_some_iff.mp h
      exact .uevent input d hd

/-! ## Where the identity comes from -/

/-- A cell stored in a UART attempt holds byte `i` of a response that was accepted in that
attempt, from the read of the given address. -/
def FromLine (reads : List ReadCall) (zone : Byte) (address : Word) (i : ℕ) (c : Cell) : Prop :=
  ∀ n, c.source = .uart n → ∃ r ∈ reads, r.attempt = n ∧ r.zone = zone ∧ r.address = address ∧
    ∃ k, Accepted 7 r.turns.tail k ∧
      c.value = (decode ((heard 7 r.turns.tail k).drop 8) 7).getD i 0

def swapped (i : ℕ) : ℕ := if i = 1 then 3 else if i = 3 then 1 else i

structure FromLines (reads : List ReadCall) (d : Dock) : Prop where
  statusFuse : ∀ i, FromLine reads 0x01 0x0002 (swapped i) (d.statusFuse i)
  fsNo : ∀ i, FromLine reads 0x01 0x0003 i (d.fsNo i)
  romSn : ∀ i, FromLine reads 0x00 0x0000 i (d.romSn i)

def KeepsCells (out out' : Memory Cell) : Prop :=
  ∀ i, out' i = out i ∨ ∃ n, (out' i).source = .hid n

structure Keeps (d d' : Dock) : Prop where
  statusFuse : KeepsCells d.statusFuse d'.statusFuse
  fsNo : KeepsCells d.fsNo d'.fsNo
  romSn : KeepsCells d.romSn d'.romSn

section Provenance

variable {S : Statics} {s s' : Session} {d d' : Dock} {reads : List ReadCall} {zone : Byte}
  {address : Word} {i : ℕ} {c : Cell} {out : Memory Cell}

theorem keeps_of_eq (hs : d'.statusFuse = d.statusFuse) (hf : d'.fsNo = d.fsNo)
    (hr : d'.romSn = d.romSn) : Keeps d d' :=
  ⟨fun i => .inl (congrFun hs i), fun i => .inl (congrFun hf i), fun i => .inl (congrFun hr i)⟩

theorem copyReport_keeps (report : Fin 64 → Byte) (n target position count : ℕ) :
    KeepsCells out (copyReport report (.hid n) target position count out) := by
  intro i
  simp only [copyReport]
  split_ifs
  · exact .inr ⟨n, rfl⟩
  · exact .inl rfl

theorem protStep_keeps {input : Input} (h : protStep d input = some d')
    (hread : readOf d.pc = none) : Keeps d d' := by
  cases protStep_cases h with
  | semWait ok hpc => cases ok <;> exact keeps_of_eq rfl rfl rfl
  | checkUndocked hpc | checkProtocol hpc | branchUart hpc | checkDocked hpc | checkSuccess hpc
  | branchHid hpc | loopGuard hpc =>
    simp only [Dock.checkUndocked, Dock.checkProtocol, Dock.branchUart, Dock.checkDocked,
      Dock.checkSuccess, Dock.branchHid, Dock.loopGuard]
    split_ifs <;> exact keeps_of_eq rfl rfl rfl
  | ioctlResult site i ok hpc =>
    simp only [Dock.ioctlResult]
    split_ifs <;> cases site <;> exact keeps_of_eq rfl rfl rfl
  | wakeup tryWakeup ok hpc =>
    simp only [Dock.wakeup]
    split_ifs <;> exact keeps_of_eq rfl rfl rfl
  | wakeupCheck tryWakeup wakeupSuccess hpc =>
    simp only [Dock.wakeupCheck]
    split_ifs <;> exact keeps_of_eq rfl rfl rfl
  | guard1 ok hpc =>
    simp only [Dock.guard1]
    split_ifs <;> exact keeps_of_eq rfl rfl rfl
  | guard2 ok hpc =>
    simp only [Dock.guard2]
    split_ifs <;> exact keeps_of_eq rfl rfl rfl
  | guard3 ok hpc =>
    simp only [Dock.guard3]
    split_ifs <;> exact keeps_of_eq rfl rfl rfl
  | hidGuard op ok hpc =>
    simp only [Dock.hidGuard]
    split_ifs <;> exact keeps_of_eq rfl rfl rfl
  | read1 rx hpc | read2 rx hpc | read3 rx hpc =>
    rw [hpc] at hread
    cases hread
  | hidReport bytes hpc =>
    exact ⟨copyReport_keeps bytes _ 1 6 3, copyReport_keeps bytes _ 1 14 4,
      copyReport_keeps bytes _ 3 18 2⟩
  | ioctl site i ok hpc => exact keeps_of_eq rfl rfl rfl
  | openChannel ok hpc => exact keeps_of_eq rfl rfl rfl
  | idSuccess hpc => exact keeps_of_eq rfl rfl rfl
  | closeChannel hpc => exact keeps_of_eq rfl rfl rfl
  | hid op ok hpc hop => exact keeps_of_eq rfl rfl rfl
  | hidSuccess hpc => exact keeps_of_eq rfl rfl rfl
  | verdictSet hpc => exact keeps_of_eq rfl rfl rfl
  | failSet hpc => exact keeps_of_eq rfl rfl rfl
  | release hpc => exact keeps_of_eq rfl rfl rfl

theorem fromLine_init {value : Byte} : FromLine reads zone address i ⟨value, .init⟩ := by
  intro n hn
  cases hn

theorem FromLine.of_keeps {out' : Memory Cell} (hk : KeepsCells out out')
    (h : FromLine reads zone address i (out i)) : FromLine reads zone address i (out' i) := by
  intro n hn
  rcases hk i with heq | ⟨m, hm⟩
  · rw [heq] at hn ⊢
    exact h n hn
  · rw [hm] at hn
    cases hn

theorem FromLine.later {r : ReadCall} (h : FromLine reads zone address i c) :
    FromLine (r::reads) zone address i c := by
  intro n hn
  obtain ⟨r', hr', hrest⟩ := h n hn
  exact ⟨r', List.mem_cons_of_mem r hr', hrest⟩

theorem FromLines.later {r : ReadCall} (h : FromLines reads d) : FromLines (r::reads) d :=
  ⟨fun i => (h.statusFuse i).later, fun i => (h.fsNo i).later, fun i => (h.romSn i).later⟩

theorem FromLines.keeps (hk : Keeps d d') (h : FromLines reads d) : FromLines reads d' where
  statusFuse := by
    intro i n hn
    rcases hk.statusFuse i with heq | ⟨m, hm⟩
    · rw [heq] at hn ⊢
      exact h.statusFuse i n hn
    · rw [hm] at hn
      cases hn
  fsNo := fun i => (h.fsNo i).of_keeps hk.fsNo
  romSn := fun i => (h.romSn i).of_keeps hk.romSn

theorem read_result {turns : List Turn} {m : Memory Byte} {report : Report} {rx : Fin 7 → Byte}
    (hzone : zone &&& 0x80 = 0) (hfits : ∀ turn ∈ turns.tail, FitsBuffer 7 turn.passes)
    (h : shacRead S zone address turns m = some report)
    (hr : resultOf S report.exchange = some rx) :
    ∃ k, Accepted 7 turns.tail k ∧
      ∀ j : Fin 7, rx j = (decode ((heard 7 turns.tail k).drop 8) 7).getD j 0 := by
  have hsize : (Command.read zone address).rxSize = 7 := if_neg (not_not.mpr hzone)
  obtain ⟨delay, hrun⟩ := run_eq S (Command.read zone address) turns m
  obtain ⟨h5, h62, hapart⟩ := response_permitted S (Command.read zone address)
  rw [hsize] at h5 h62 hapart hrun
  obtain ⟨hsome, hall⟩ := line_accepts rfl rfl (command_permitted S m (.read zone address)) h5 h62
    hapart hfits (hrun.symm.trans h)
  rw [resultOf] at hr
  split_ifs at hr with hstatus
  obtain ⟨k, hk⟩ := hsome hstatus
  have hbytes : slice report.exchange.memory S.receicebuf 7 =
    decode ((heard 7 turns.tail k).drop 8) 7 := (hall k hk).bytes
  refine ⟨k, hk, fun j => ?_⟩
  rw [← Option.some.inj hr, ← hbytes, List.getD, List.getElem?_eq_getElem (by simp)]
  simp

theorem stored_fromLine {rx : Fin 7 → Byte} {turns : List Turn} {k n : ℕ}
    (hk : Accepted 7 turns.tail k)
    (hrx : ∀ j : Fin 7, rx j = (decode ((heard 7 turns.tail k).drop 8) 7).getD j 0)
    (hold : 7 ≤ i → FromLine reads zone address i (out i)) :
    FromLine (⟨n, zone, address, turns⟩::reads) zone address i
      (copyResults rx (.uart n) out i) := by
  simp only [copyResults]
  split_ifs with hi
  · rintro n' hn'
    obtain rfl : n = n' := by simpa using hn'
    exact ⟨_, List.mem_cons_self, rfl, rfl, rfl, k, hk, hrx ⟨i, hi⟩⟩
  · exact (hold (not_lt.mp hi)).later

theorem read_fromLines {turns : List Turn} {rx : Option (Fin 7 → Byte)}
    (hread : readOf d.pc = some (zone, address)) (h : FromLines reads d)
    (hrx : ∀ bytes, rx = some bytes → ∃ k, Accepted 7 turns.tail k ∧
      ∀ j : Fin 7, bytes j = (decode ((heard 7 turns.tail k).drop 8) 7).getD j 0)
    (hs : protStep d (.response rx) = some d') :
    FromLines (⟨d.history.attempt, zone, address, turns⟩::reads) d' := by
  cases protStep_cases hs with
  | read1 rx hpc =>
    rw [hpc] at hread
    cases hread
    cases rx with
    | none => exact h.later.keeps (d := d) (keeps_of_eq rfl rfl rfl)
    | some bytes =>
      obtain ⟨k, hk, hbytes⟩ := hrx bytes rfl
      refine ⟨fun i => ?_, h.later.fsNo, h.later.romSn⟩
      have hcell : (d.read1 (some bytes)).statusFuse i =
          copyResults bytes (.uart d.history.attempt) d.statusFuse (swapped i) := by
        simp only [Dock.read1, Dock.goto, swapFuses, swapped]
        split_ifs <;> rfl
      rw [hcell]
      refine stored_fromLine hk hbytes (fun hi => ?_)
      have hsame : swapped i = i := by
        simp only [swapped] at hi ⊢
        split_ifs at hi ⊢ <;> omega
      have hold := h.statusFuse i
      rw [hsame] at hold ⊢
      exact hold
  | read2 rx hpc =>
    rw [hpc] at hread
    cases hread
    cases rx with
    | none => exact h.later.keeps (d := d) (keeps_of_eq rfl rfl rfl)
    | some bytes =>
      obtain ⟨k, hk, hbytes⟩ := hrx bytes rfl
      exact ⟨h.later.statusFuse, fun i => stored_fromLine hk hbytes (fun _ => h.fsNo i),
        h.later.romSn⟩
  | read3 rx hpc =>
    rw [hpc] at hread
    cases hread
    cases rx with
    | none => exact h.later.keeps (d := d) (keeps_of_eq rfl rfl rfl)
    | some bytes =>
      obtain ⟨k, hk, hbytes⟩ := hrx bytes rfl
      exact ⟨h.later.statusFuse, h.later.fsNo,
        fun i => stored_fromLine hk hbytes (fun _ => h.romSn i)⟩

/-- No read of the kernel runs over the transfer buffer. -/
def Fits : Event → Prop
  | .wakeup turn => (roused turn.passes).length ≤ maxBufLen
  | .read turns => ∀ turn ∈ turns.tail, FitsBuffer 7 turn.passes
  | _ => True

theorem readOf_none {pc : Pc} (h : callsDriver pc = false) : readOf pc = none := by
  cases pc <;> first | rfl | cases h

theorem readOf_zone {pc : Pc} (h : readOf pc = some (zone, address)) : zone &&& 0x80 = 0 := by
  cases pc <;> cases h <;> decide

theorem step_fromLines {e : Event} (hfits : Fits e) (h : FromLines s.reads s.dock)
    (hs : step S s e = some s') : FromLines s'.reads s'.dock := by
  cases step_cases hs with
  | openChannel opened attr d hpc hd => exact h.keeps (protStep_keeps hd (by rw [hpc]; rfl))
  | wakeup turn n t d hpc ht hd => exact h.keeps (protStep_keeps hd (by rw [hpc]; rfl))
  | read turns zone address report d hread hr hd =>
    exact read_fromLines hread h
      (fun _ hrx => read_result (readOf_zone hread) hfits hr hrx) hd
  | closeChannel writes ret line d hpc hl hd =>
    exact h.keeps (protStep_keeps hd (by rw [hpc]; rfl))
  | protocol input d hpc hd => exact h.keeps (protStep_keeps hd (readOf_none hpc))
  | uevent input d hd =>
    have hframe := (ueventStep_moves hd).1
    exact h.keeps (keeps_of_eq hframe.statusFuse hframe.fsNo hframe.romSn)

def started (statusFuse fsNo romSn memory : Memory Byte) (line : Line) : Session where
  dock := .start statusFuse fsNo romSn
  memory := memory
  line := line
  opened := false
  reads := []

def Supplied (s : Session) (zone : Byte) (address : Word) (i : ℕ) (c : Cell) : Prop :=
  ∃ r ∈ s.reads, r.attempt = s.dock.history.attempt ∧ r.zone = zone ∧ r.address = address ∧
    ∃ k, Accepted 7 r.turns.tail k ∧
      c.value = (decode ((heard 7 r.turns.tail k).drop 8) 7).getD i 0

/-- The bytes of the identity are those that the chip sent in the current attempt. -/
structure Identified (s : Session) : Prop where
  statusFuse : ∀ i ∈ [1, 2, 3], Supplied s 0x01 0x0002 (swapped i) (s.dock.statusFuse i)
  fsNo : ∀ i ∈ [1, 2, 3, 4], Supplied s 0x01 0x0003 i (s.dock.fsNo i)
  romSn : ∀ i ∈ [3, 4], Supplied s 0x00 0x0000 i (s.dock.romSn i)

theorem step_traced {e : Event} (h : WhisperIdentity.Traced s.dock s.dock.pc)
    (hs : step S s e = some s') : WhisperIdentity.Traced s'.dock s'.dock.pc := by
  cases step_cases hs with
  | openChannel opened attr d hpc hd => exact WhisperIdentity.protStep_traced hd h
  | wakeup turn n t d hpc ht hd => exact WhisperIdentity.protStep_traced hd h
  | read turns zone address report d hread hr hd => exact WhisperIdentity.protStep_traced hd h
  | closeChannel writes ret line d hpc hl hd => exact WhisperIdentity.protStep_traced hd h
  | protocol input d hpc hd => exact WhisperIdentity.protStep_traced hd h
  | uevent input d hd => exact WhisperIdentity.ueventStep_traced hd h

/-- Every byte stored by a UART attempt was sent by the chip in that attempt, and an
identity that is handed over after all three reads consists of such bytes only. -/
theorem identity_heard {statusFuse fsNo romSn memory : Memory Byte} {line : Line}
    {es : List Event}
    (hr : Run (step S) (fun _ e => Fits e) (started statusFuse fsNo romSn memory line) es s) :
    FromLines s.reads s.dock ∧
      (WhisperIdentity.HandsOver s.dock (.protocol .silent) →
        s.dock.history.fuseSkipped = false → Identified s) := by
  have hstart : FromLines [] (Dock.start statusFuse fsNo romSn) :=
    ⟨fun _ => fromLine_init, fun _ => fromLine_init, fun _ => fromLine_init⟩
  have hall : FromLines s.reads s.dock ∧ WhisperIdentity.Traced s.dock s.dock.pc := by
    refine hr.invariant
      (fun s => FromLines s.reads s.dock ∧ WhisperIdentity.Traced s.dock s.dock.pc) ?_ ?_
    · exact fun s e s' h hfits hs => ⟨step_fromLines hfits h.1 hs, step_traced h.2 hs⟩
    · exact ⟨hstart, trivial⟩
  obtain ⟨hlines, htraced⟩ := hall
  refine ⟨hlines, fun hh hsecond => ?_⟩
  obtain ⟨-, hpc, hg, hu⟩ := hh
  rw [hpc] at htraced
  have hfresh := htraced hg hu hsecond
  refine ⟨fun i hi => hlines.statusFuse i _ (hfresh _ ?_),
    fun i hi => hlines.fsNo i _ (hfresh _ ?_), fun i hi => hlines.romSn i _ (hfresh _ ?_)⟩ <;>
  · simp only [List.mem_cons, List.not_mem_nil, or_false] at hi
    simp only [Dock.usedCells]
    rcases hi with rfl | rfl | rfl | rfl <;> simp

end Provenance

instance : ∀ e, Decidable (Fits e)
  | .wakeup _ => inferInstanceAs (Decidable (_ ≤ _))
  | .read turns => inferInstanceAs (Decidable (∀ turn ∈ turns.tail, FitsBuffer 7 turn.passes))
  | .openChannel _ _ | .closeChannel _ | .other _ => inferInstanceAs (Decidable True)

def blankSession : Session := started blank blank blank blank ⟨.B0, []⟩

def silent : Event := .other (.protocol .silent)

def docked : List Event :=
  [.other (.uevent (.switch .failed)), .other (.uevent .silent),
    .other (.uevent (.switch .attached)), .other (.uevent (.nodes [])), .other (.uevent .silent),
    .other (.protocol (.outcome true)), silent, silent, .other (.protocol (.outcome true)), silent,
    silent, silent, .openChannel true ⟨true, true⟩, .wakeup promptTurn, silent, silent]

def prompt : Event :=
  .read [⟨[.accepted 64], [timeoutPass]⟩, ⟨[.accepted 8], [readyPass (List.replicate 8 0x7F ++
    ([7, 1, 2, 3, 4, 0xF3, 0x28] : List Byte).flatMap chipBits)]⟩]

theorem identity_heard_prompt : ∃ s : Session,
    WhisperIdentity.HandsOver s.dock (.protocol .silent) ∧ Identified s := by
  have hend : (final (step statics) (fun _ e => Fits e) blankSession (docked ++ [prompt, silent,
      prompt, silent, prompt, silent, .closeChannel [.accepted 1]])).any (fun s =>
        decide (s.dock.pc = .checkSuccess ∧ s.dock.globalState = .DOCKED_IDSUCC ∧
          s.dock.history.uartAttempt = true ∧ s.dock.history.fuseSkipped = false)) = true := by
    decide +kernel
  obtain ⟨s, hs, hover⟩ := (Option.any_eq_true _ _).mp hend
  obtain ⟨hpc, hg, hu, hsecond⟩ := of_decide_eq_true hover
  have hh : WhisperIdentity.HandsOver s.dock (.protocol .silent) := ⟨⟨_, rfl⟩, hpc, hg, hu⟩
  exact ⟨s, hh, (identity_heard (final_run hs)).2 hh hsecond⟩

/-! ## When the chip is awake -/

/-- The places between a wake and the end of its attempt. -/
def betweenTokens : Pc → Bool
  | .wakeupCheck _ _ | .guard1 _ | .read1 | .guard2 _ | .read2 | .guard3 _ | .read3
  | .idSuccess | .closeChannel => true
  | _ => false

/-- What the tokens written so far have made of the chip. -/
def Follows (line : Line) (opened : Bool) : Pc → Prop
  | .wakeup _ => opened = true ∧ line.awake = false
  | .wakeupCheck tryWakeup wakeupSuccess => opened = true ∧ line.speed = OPPBAUD ∧
    line.awake = wakeupSuccess ∧ (wakeupSuccess = true → tryWakeup = 0)
  | .guard1 wakeupSuccess => opened = true ∧ line.speed = OPPBAUD ∧ line.awake = wakeupSuccess
  | .read1 | .guard2 _ | .read2 | .guard3 _ | .read3 | .idSuccess =>
    opened = true ∧ line.speed = OPPBAUD ∧ line.awake = true
  | .closeChannel => line.awake = false ∨ (opened = true ∧ line.speed = OPPBAUD)
  | _ => line.awake = false

/-- The tokens of the driver reach the chip while the port is open. No read runs over the
transfer buffer, behind which the tokens may lie; they are constants here. -/
def Reliable (s : Session) : Event → Prop
  | .wakeup turn => (roused turn.passes).length ≤ maxBufLen ∧ turn.Reliable
  | .read turns => ∀ turn ∈ turns, FitsBuffer 7 turn.passes
  | .closeChannel writes => s.opened = true → Takes writes 1
  | _ => True

section Chip

variable {S : Statics} {s s' : Session} {d d' : Dock} {line line' : Line} {opened : Bool}

theorem protocol_follows {input : Input} (hd : protStep d input = some d')
    (hpc : callsDriver d.pc = false) (h : Follows line opened d.pc) :
    Follows line opened d'.pc := by
  cases protStep_cases hd with
  | semWait ok hp =>
    rw [hp] at h
    cases ok <;> exact h
  | checkUndocked hp | checkProtocol hp | branchUart hp | checkDocked hp | checkSuccess hp
  | branchHid hp | loopGuard hp =>
    rw [hp] at h
    simp only [Dock.checkUndocked, Dock.checkProtocol, Dock.branchUart, Dock.checkDocked,
      Dock.checkSuccess, Dock.branchHid, Dock.loopGuard]
    split_ifs <;> exact h
  | ioctlResult site i ok hp =>
    rw [hp] at h
    simp only [Dock.ioctlResult]
    split_ifs <;> cases site <;> exact h
  | wakeupCheck tryWakeup wakeupSuccess hp =>
    rw [hp] at h
    obtain ⟨hopened, hspeed, hawake, hzero⟩ := h
    simp only [Dock.wakeupCheck]
    split_ifs with hstop
    · exact ⟨hopened, hspeed, hawake⟩
    · refine ⟨hopened, ?_⟩
      rw [hawake]
      exact Bool.eq_false_iff.mpr fun hs => hstop (.inr (hzero hs))
  | guard1 ok hp =>
    rw [hp] at h
    obtain ⟨hopened, hspeed, hawake⟩ := h
    simp only [Dock.guard1]
    split_ifs with hnot
    · exact .inr ⟨hopened, hspeed⟩
    · refine ⟨hopened, hspeed, ?_⟩
      rw [hawake]
      simpa using hnot
    · exact .inr ⟨hopened, hspeed⟩
  | guard2 ok hp =>
    rw [hp] at h
    simp only [Dock.guard2]
    split_ifs <;> exact h
  | guard3 ok hp =>
    rw [hp] at h
    simp only [Dock.guard3]
    split_ifs
    · exact h
    · exact .inr ⟨h.1, h.2.1⟩
  | idSuccess hp =>
    rw [hp] at h
    exact .inr ⟨h.1, h.2.1⟩
  | hidGuard op ok hp =>
    rw [hp] at h
    simp only [Dock.hidGuard]
    split_ifs
    · exact h
    · cases op <;> exact h
  | hid op ok hp hop =>
    rw [hp] at h
    cases op <;> exact h
  | openChannel ok hp | wakeup tryWakeup ok hp | read1 rx hp | read2 rx hp | read3 rx hp
  | closeChannel hp =>
    rw [hp] at hpc
    cases hpc
  | ioctl site i ok hp | hidReport bytes hp | hidSuccess hp | verdictSet hp | failSet hp
  | release hp =>
    rw [hp] at h
    exact h

theorem take_follows (line : Line) (sent : List Sent)
    (h : ∀ t ∈ sent, ∀ b ∈ t.taken, marks b = true) :
    (Line.take line sent).speed = line.speed ∧ (Line.take line sent).awake = line.awake := by
  induction sent generalizing line with
  | nil => exact ⟨rfl, rfl⟩
  | cons t sent ih =>
    obtain ⟨hspeed, hawake⟩ := ih (line.write t.taken)
      (fun u hu => h u (List.mem_cons_of_mem t hu))
    refine ⟨hspeed, hawake.trans ?_⟩
    rw [awake_write, protocol_not_heard _ _ (h t List.mem_cons_self)]

theorem sleep_stays {writes : List Write} {ret : Status} (h : line.awake = false)
    (hs : shapCloseChannel writes line = some (ret, line')) : line'.awake = false := by
  rw [shapCloseChannel, sleepDevice, writeToken] at hs
  cases hw : writeRetried writes with
  | none => simp [hw] at hs
  | some answer =>
    cases answer with
    | interrupted | failed =>
      simp only [hw, Option.map_some, Option.some.injEq, Prod.mk.injEq] at hs
      obtain ⟨-, rfl⟩ := hs
      exact h
    | accepted nwritten =>
      simp only [hw, Option.map_some, Option.some.injEq, Prod.mk.injEq] at hs
      obtain ⟨-, rfl⟩ := hs
      rw [awake_write, chipHears, h, if_neg]
      · split_ifs <;> rfl
      · rw [Prod.mk.injEq]
        rintro ⟨-, hraw⟩
        cases nwritten with
        | zero => cases hraw
        | succ n => cases hraw

theorem read_steps {rx : Option (Fin 7 → Byte)} (hd : protStep d (.response rx) = some d') :
    d'.pc = .idSuccess ∨ d'.pc = .closeChannel ∨ (∃ ok, d'.pc = .guard2 ok) ∨
      ∃ ok, d'.pc = .guard3 ok := by
  cases protStep_cases hd with
  | read1 rx hp =>
    cases rx with
    | none => exact .inr (.inr (.inl ⟨false, rfl⟩))
    | some bytes => exact .inr (.inr (.inl ⟨true, rfl⟩))
  | read2 rx hp =>
    cases rx with
    | none => exact .inr (.inr (.inr ⟨false, rfl⟩))
    | some bytes => exact .inr (.inr (.inr ⟨true, rfl⟩))
  | read3 rx hp =>
    cases rx with
    | none => exact .inr (.inl rfl)
    | some bytes => exact .inl rfl

theorem step_follows {e : Event} (hok : Reliable s e) (h : Follows s.line s.opened s.dock.pc)
    (hs : step S s e = some s') : Follows s'.line s'.opened s'.dock.pc := by
  cases step_cases hs with
  | openChannel opened attr d hpc hd =>
    rw [hpc] at h
    have hkept : (shapOpenChannel opened attr s.line).2.awake = false := by
      simp only [shapOpenChannel]
      split_ifs <;> exact h
    simp only [protStep, hpc, Option.some.injEq] at hd
    subst hd
    cases opened with
    | false => exact .inl hkept
    | true => exact ⟨rfl, hkept⟩
  | wakeup turn n t d hpc ht hd =>
    rw [hpc] at h
    obtain ⟨hspeed, hawake⟩ := wake_awake hok.2 (wake_cases hok.1 ht)
    simp only [protStep, hpc, Option.some.injEq] at hd
    subst hd
    by_cases hstatus : t.status = shaSuccess
    · simp only [hstatus, decide_true, Dock.wakeup, if_true]
      exact ⟨h.1, hspeed, hawake.mpr hstatus, fun _ => rfl⟩
    · have hasleep := Bool.eq_false_iff.mpr (mt hawake.mp hstatus)
      simp only [hstatus, decide_false, Dock.wakeup, Bool.false_eq_true, if_false]
      split_ifs
      · exact ⟨h.1, hspeed, hasleep, fun _ => rfl⟩
      · exact ⟨h.1, hspeed, hasleep, fun hf => absurd hf Bool.false_ne_true⟩
  | read turns zone address report d hread hr hd =>
    obtain ⟨hspeed, hawake⟩ := take_follows s.line report.sent
      (sent_marks (c := .read zone address) hr)
    have hbefore : s.opened = true ∧ s.line.speed = OPPBAUD ∧ s.line.awake = true := by
      cases hp : s.dock.pc <;> rw [hp] at hread h <;> first | exact h | cases hread
    rw [← hspeed, ← hawake] at hbefore
    rcases read_steps hd with hp | hp | ⟨ok, hp⟩ | ⟨ok, hp⟩
    · rw [hp]
      exact hbefore
    · rw [hp]
      exact .inr ⟨hbefore.1, hbefore.2.1⟩
    · rw [hp]
      exact hbefore
    · rw [hp]
      exact hbefore
  | closeChannel writes ret line d hpc hl hd =>
    rw [hpc] at h
    simp only [protStep, hpc, Option.some.injEq] at hd
    subst hd
    show line.awake = false
    rcases h with hasleep | ⟨hopened, hspeed⟩
    · exact sleep_stays hasleep hl
    · rw [(sleep_awake (hok hopened) hl).2, hspeed, chipHears, if_neg (by decide), if_pos rfl]
  | protocol input d hpc hd => exact protocol_follows hd hpc h
  | uevent input d hd =>
    rw [(ueventStep_moves hd).1.pc]
    exact h

/-- Whatever docks and undocks meanwhile, commands are sent to a chip that is awake, and
outside an attempt it is asleep. -/
theorem chip_awake {statusFuse fsNo romSn memory : Memory Byte} {speed : Speed} {es : List Event}
    (hr : Run (step S) Reliable (started statusFuse fsNo romSn memory ⟨speed, []⟩) es s) :
    (readOf s.dock.pc ≠ none → s.line.awake = true) ∧
      (betweenTokens s.dock.pc = false → s.line.awake = false) := by
  have hall : Follows s.line s.opened s.dock.pc := by
    refine hr.invariant (fun s => Follows s.line s.opened s.dock.pc) ?_ ?_
    · exact fun s e s' h hok hs => step_follows hok h hs
    · rfl
  constructor
  · intro hread
    cases hp : s.dock.pc <;> rw [hp] at hread hall <;>
      first | exact hall.2.2 | exact absurd rfl hread
  · intro hbetween
    cases hp : s.dock.pc <;> rw [hp] at hbetween hall <;>
      first | exact hall | exact hall.2 | cases hbetween

end Chip

theorem docked_reliable : ∀ e ∈ docked, ∀ s, Reliable s e := by
  simp only [docked, silent, List.forall_mem_cons, Reliable, List.not_mem_nil, false_implies,
    implies_true, and_true, true_and, promptTurn_reliable]
  intro _
  decide +kernel

theorem chip_awake_docked : ∃ s : Session, s.dock.pc = .read1 ∧ s.line.awake = true := by
  have hend : (final (step statics) (fun _ _ => True) blankSession docked).any (fun s =>
      decide (s.dock.pc = .read1)) = true := by decide +kernel
  obtain ⟨s, hs, hpc⟩ := (Option.any_eq_true _ _).mp hend
  have hr : Run (step statics) Reliable blankSession docked s :=
    ((final_run hs).restrict docked_reliable).transfer (fun _ => True)
      (fun s _ _ _ ho _ => ⟨ho.2 s, trivial⟩) trivial
  refine ⟨s, of_decide_eq_true hpc, (chip_awake hr).1 ?_⟩
  rw [of_decide_eq_true hpc]
  exact Option.some_ne_none _

end Wingray.WhisperSession
