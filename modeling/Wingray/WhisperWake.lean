import Wingray.WhisperLine

/-!
# Waking the accessory chip

A wake token goes out at its own speed and everything else at the speed of the protocol.
The driver ignores whether a change of speed worked. A wake that does not bring the right
answer sends the chip back to sleep.
-/

set_option autoImplicit false

namespace Wingray.WhisperWake
open Wingray.CellMemory Wingray.WhisperCrc Wingray.WhisperExchange Wingray.WhisperSerial
open Wingray.WhisperRaw Wingray.WhisperReceive Wingray.WhisperSend Wingray.WhisperLine

inductive Speed
  | B0 | B115200 | B230400
  deriving DecidableEq

def OPPBAUD : Speed := .B230400
def WAKEBAUD : Speed := .B115200
def wakeStr : Byte := 0x00
def sleepStr : Byte := 0xCC

/-- The speed of the port, and what was written to it at which speed. -/
structure Line where
  speed : Speed
  written : List (Speed × List Byte)

def Line.write (l : Line) (raw : List Byte) : Line :=
  { l with written := l.written ++ [(l.speed, raw)] }

structure Attributes where
  got : Bool
  set : Bool
  deriving DecidableEq

def Attributes.work (attr : Attributes) : Prop := attr.got = true ∧ attr.set = true

instance (attr : Attributes) : Decidable attr.work := inferInstanceAs (Decidable (_ ∧ _))

def setBaudRate (inspeed : Speed) (attr : Attributes) (l : Line) : Status × Line :=
  if attr.got = false then (shaCommFail, l)
  else if attr.set = false then (shaCommFail, l)
  else (shaSuccess, { l with speed := inspeed })

/-- The write of a single token: whether it failed, and the line behind it. -/
def writeToken (token : Byte) (writes : List Write) (l : Line) : Option (Bool × Line) :=
  match writeRetried writes with
  | none => none
  | some (.accepted nwritten) => some (true, l.write ([token].take nwritten))
  | some _ => some (false, l)

def sleepDevice (writes : List Write) (l : Line) : Option (Status × Line) :=
  (writeToken sleepStr writes l).map (fun (ok, l) => (if ok then shaSuccess else shaCommFail, l))

structure WakeTurn where
  wakeAttr : Attributes
  wake : List Write
  attr : Attributes
  writes : List Write
  passes : List Pass
  sleep : List Write

structure Woken where
  status : Status
  line : Line
  memory : Memory Byte

def shapWakeDevice (S : Statics) (turn : WakeTurn) (l : Line) (m : Memory Byte) : Option Woken :=
  match writeToken wakeStr turn.wake (setBaudRate WAKEBAUD turn.wakeAttr l).2 with
  | none => none
  | some (false, l) => some ⟨shaCommFail, l, m⟩
  | some (true, l) =>
    let l := (setBaudRate OPPBAUD turn.attr l).2
    match writeToDevice S.readwriteBuf S.transmitStr 1 turn.writes m with
    | none => none
    | some w =>
      let l := l.write w.taken
      match readFromDevice S.readwriteBuf S.inStr 41 9 turn.passes w.memory with
      | none => none
      | some r =>
        if r.status = shaCommFail ∨ r.retBytes < 41 then
          (sleepDevice turn.sleep l).map (fun (_, l) => ⟨shaCommFail, l, r.memory⟩)
        else if r.memory S.inStr = 0x04 ∧ r.memory (S.inStr+1) = 0x11 then
          some ⟨shaSuccess, l, r.memory⟩
        else (sleepDevice turn.sleep l).map (fun (_, l) => ⟨shaCmdFail, l, r.memory⟩)

/-- `SHAP_OpenChannel`, given what `open` and the calls on the port answer. The control
flags are written without a speed. -/
def shapOpenChannel (opened : Bool) (attr : Attributes) (l : Line) : Status × Line :=
  if opened then (shaSuccess, if attr.set then { l with speed := .B0 } else l)
  else (shaCommFail, l)

def shapCloseChannel (writes : List Write) (l : Line) : Option (Status × Line) :=
  sleepDevice writes l

/-! ## The answer to a wake -/

section Wake

variable {S : Statics} {turn : WakeTurn} {l : Line} {m : Memory Byte} {t : Woken}

def roused (passes : List Pass) : List Byte := received 41 0 passes

def Rouses (passes : List Pass) : Prop :=
  41 ≤ (roused passes).length ∧ decode ((roused passes).drop 9) 2 = [0x04, 0x11]

instance (passes : List Pass) : Decidable (Rouses passes) := inferInstanceAs (Decidable (_ ∧ _))

theorem readFromDevice_count {readwriteBuf readBuf : ℕ} {readLen : BitVec 16} {cmdOfset : Byte}
    {passes : List Pass} {r : Transfer} (hlen : 0 < readLen.toNat)
    (hroom : delivered readLen.toNat 0 passes < 2^16)
    (h : readFromDevice readwriteBuf readBuf readLen cmdOfset passes m = some r) :
    r.retBytes.toNat = delivered readLen.toNat 0 passes := by
  cases hr : readLoop readwriteBuf readLen passes (cleared readwriteBuf m) with
  | waiting s => simp [readFromDevice, hr] at h
  | timedOut s =>
    simp only [readFromDevice, hr, Option.some.injEq] at h
    subst h
    exact (cleared_collected hlen hroom hr).2.1
  | complete s =>
    simp only [readFromDevice, hr, Option.some.injEq] at h
    subst h
    exact (cleared_collected hlen hroom hr).2.1

theorem wake_read {passes : List Pass} {r : Transfer} (hfits : (roused passes).length ≤ maxBufLen)
    (h : readFromDevice S.readwriteBuf S.inStr 41 9 passes m = some r) :
    ((r.status = shaCommFail ∨ r.retBytes < 41) ↔ (roused passes).length < 41) ∧
      (41 ≤ (roused passes).length → (r.memory S.inStr = 0x04 ∧ r.memory (S.inStr+1) = 0x11 ↔
        decode ((roused passes).drop 9) 2 = [0x04, 0x11])) := by
  have hsize := received_length 41 0 passes
  rw [Nat.zero_add] at hsize
  rw [roused] at hfits ⊢
  rw [maxBufLen] at hfits
  have hroom : delivered (41 : BitVec 16).toNat 0 passes < 2^16 := by
    show delivered 41 0 passes < 2^16
    omega
  have hcount : r.retBytes.toNat = delivered 41 0 passes :=
    readFromDevice_count (by decide) hroom h
  have hless : r.retBytes < 41 ↔ (received 41 0 passes).length < 41 := by
    rw [BitVec.lt_def, hcount, hsize]
    rfl
  by_cases henough : 41 ≤ (received 41 0 passes).length
  · obtain ⟨r', hr', hstatus, hmemory⟩ := readFromDevice_whole S.readwriteBuf S.inStr 9 m
      (show 0 < (41 : BitVec 16).toNat by decide) hroom (by rw [hsize] at henough; exact henough)
    obtain rfl := Option.some.inj (hr'.symm.trans h)
    have hfour : formatted ((41 : BitVec 16)-(9 : Byte).setWidth 16) = 4 := by decide
    have hapart := S.inStr_apart
    simp only [Apart, inStrSize, maxBufLen] at hapart
    have hdecode := formatBytes_decode S.inStr (cleared S.readwriteBuf m).memory S.readwriteBuf 9
      (received 41 0 passes) ((41 : BitVec 16)-(9 : Byte).setWidth 16)
      (by rw [hfour]; exact henough) (by
        intro j hj i hi
        rw [hfour] at hj
        simp only [ReadFirst]
        omega)
    rw [hfour] at hdecode
    constructor
    · rw [hless, hstatus]
      exact or_iff_right (by decide)
    · intro _
      have hbytes : [r'.memory S.inStr, r'.memory (S.inStr+1)] =
          decode ((received 41 0 passes).drop 9) 2 := by
        have hfirst := congrArg (List.take 2) hdecode
        rw [hmemory]
        exact hfirst
      rw [← hbytes]
      simp
  · refine ⟨?_, fun h41 => absurd h41 henough⟩
    rw [hless]
    exact ⟨fun _ => not_le.mp henough, fun hlt => .inr hlt⟩

/-- No answer of the kernel is missing. -/
structure WakeTurn.Answered (turn : WakeTurn) : Prop where
  wake : writeRetried turn.wake ≠ none
  written : writeRetried turn.writes ≠ none
  read : Finishes 41 turn.passes
  sleep : writeRetried turn.sleep ≠ none

theorem sleepDevice_returns {writes : List Write} (l : Line) (h : writeRetried writes ≠ none) :
    ∃ p, sleepDevice writes l = some p := by
  rw [sleepDevice, writeToken]
  cases hr : writeRetried writes with
  | none => exact absurd hr h
  | some answer => cases answer <;> exact ⟨_, rfl⟩

variable (S l m) in
/-- A wake returns once its writes are answered and its read is ended. -/
theorem wake_returns (h : turn.Answered) : ∃ t, shapWakeDevice S turn l m = some t := by
  have hasleep : ∀ (l : Line) (f : Status × Line → Woken),
      ∃ t, (sleepDevice turn.sleep l).map f = some t := by
    intro l f
    obtain ⟨p, hp⟩ := sleepDevice_returns l h.sleep
    exact ⟨f p, by rw [hp, Option.map_some]⟩
  obtain ⟨w, hw⟩ := writeToDevice_returns S.readwriteBuf S.transmitStr 1 m h.written
  obtain ⟨r, hr⟩ := readFromDevice_returns S.readwriteBuf S.inStr 9 w.memory
    (show 0 < (41 : BitVec 16).toNat by decide) (by decide) h.read
  rw [shapWakeDevice, writeToken]
  cases hwake : writeRetried turn.wake with
  | none => exact absurd hwake h.wake
  | some answer =>
    cases answer with
    | interrupted | failed => exact ⟨_, rfl⟩
    | accepted nwritten =>
      simp only [hw, hr]
      split_ifs
      · exact hasleep _ _
      · exact ⟨_, rfl⟩
      · exact hasleep _ _

def Roused (turn : WakeTurn) (l : Line) (nwritten : ℕ) (taken : List Byte) : Line :=
  (setBaudRate OPPBAUD turn.attr
    ((setBaudRate WAKEBAUD turn.wakeAttr l).2.write ([wakeStr].take nwritten))).2.write taken

/-- How a wake can end: its token is not written, the chip answers rightly, or the chip is
put to sleep again. -/
inductive WakeCase (turn : WakeTurn) (l : Line) : Status → Line → Prop
  | unwritten (h : ∀ n, writeRetried turn.wake ≠ some (.accepted n)) :
      WakeCase turn l shaCommFail (setBaudRate WAKEBAUD turn.wakeAttr l).2
  | roused (nwritten : ℕ) (taken : List Byte) (ht : ∀ b ∈ taken, marks b = true)
      (hwake : writeRetried turn.wake = some (.accepted nwritten)) (hr : Rouses turn.passes) :
      WakeCase turn l shaSuccess (Roused turn l nwritten taken)
  | asleep (nwritten : ℕ) (taken : List Byte) (ret status : Status) (l' : Line)
      (ht : ∀ b ∈ taken, marks b = true)
      (hwake : writeRetried turn.wake = some (.accepted nwritten)) (hr : ¬ Rouses turn.passes)
      (hs : sleepDevice turn.sleep (Roused turn l nwritten taken) = some (ret, l'))
      (hstatus : status = shaCommFail ∨ status = shaCmdFail) :
      WakeCase turn l status l'

theorem wake_cases (hfits : (roused turn.passes).length ≤ maxBufLen)
    (h : shapWakeDevice S turn l m = some t) : WakeCase turn l t.status t.line := by
  rw [shapWakeDevice, writeToken] at h
  cases hwake : writeRetried turn.wake with
  | none => simp [hwake] at h
  | some answer =>
    cases answer with
    | interrupted | failed =>
      simp only [hwake, Option.some.injEq] at h
      subst h
      exact .unwritten (by simp [hwake])
    | accepted nwritten =>
      simp only [hwake] at h
      cases hw : writeToDevice S.readwriteBuf S.transmitStr 1 turn.writes m with
      | none => simp only [hw, reduceCtorEq] at h
      | some w =>
        have hdata := S.transmit_apart
        simp only [Apart] at hdata
        have htoken := taken_marks (by
          intro i hi
          have hone : (1 : Byte).toNat = 1 := rfl
          rw [hone] at hi
          omega) hw
        simp only [hw] at h
        cases hr : readFromDevice S.readwriteBuf S.inStr 41 9 turn.passes w.memory with
        | none => simp only [hr, reduceCtorEq] at h
        | some r =>
          obtain ⟨hshort, hright⟩ := wake_read hfits hr
          simp only [hr, hshort] at h
          split_ifs at h with hfew hbytes
          · obtain ⟨⟨ret, l'⟩, hs, rfl⟩ := Option.map_eq_some_iff.mp h
            exact .asleep nwritten w.taken ret _ l' htoken hwake
              (fun hr => not_lt.mpr hr.1 hfew) hs (.inl rfl)
          · obtain rfl := Option.some.inj h
            exact .roused nwritten w.taken htoken hwake
              ⟨not_lt.mp hfew, (hright (not_lt.mp hfew)).mp hbytes⟩
          · obtain ⟨⟨ret, l'⟩, hs, rfl⟩ := Option.map_eq_some_iff.mp h
            exact .asleep nwritten w.taken ret _ l' htoken hwake
              (fun hr => hbytes ((hright hr.1).mpr hr.2)) hs (.inr rfl)

/-! ## The chip -/

/-- The chip wakes up at its token and goes to sleep at the other one. -/
def chipHears (awake : Bool) (sent : Speed × List Byte) : Bool :=
  if sent = (WAKEBAUD, [wakeStr]) then true
  else if sent = (OPPBAUD, [sleepStr]) then false
  else awake

def Line.awake (l : Line) : Bool := l.written.foldl chipHears false

theorem awake_write (l : Line) (raw : List Byte) :
    (l.write raw).awake = chipHears l.awake (l.speed, raw) := by
  simp [Line.awake, Line.write]

theorem setBaudRate_awake (inspeed : Speed) (attr : Attributes) (l : Line) :
    (setBaudRate inspeed attr l).2.awake = l.awake := by
  simp only [setBaudRate]
  split_ifs <;> rfl

theorem setBaudRate_speed {inspeed : Speed} {attr : Attributes} (h : attr.work) :
    (setBaudRate inspeed attr l).2.speed = inspeed := by
  simp [setBaudRate, h.1, h.2]

/-- Raw bytes of the protocol are no token of the chip. -/
theorem protocol_not_heard {raw : List Byte} (awake : Bool) (speed : Speed)
    (h : ∀ b ∈ raw, marks b = true) : chipHears awake (speed, raw) = awake := by
  have hwake : raw ≠ [wakeStr] := by
    rintro rfl
    exact absurd (h wakeStr List.mem_cons_self) (by decide)
  have hsleep : raw ≠ [sleepStr] := by
    rintro rfl
    exact absurd (h sleepStr List.mem_cons_self) (by decide)
  simp [chipHears, hwake, hsleep]

theorem token_written {token : Byte} {writes : List Write} {nwritten : ℕ}
    (hw : writeRetried writes = some (.accepted nwritten)) (h : Takes writes 1) :
    [token].take nwritten = [token] := by
  obtain ⟨n, hn, h1⟩ := h
  rw [hw, Option.some.injEq, Write.accepted.injEq] at hn
  exact List.take_of_length_le (by simpa [hn] using h1)

theorem sleep_awake {writes : List Write} {ret : Status} {l' : Line} (h : Takes writes 1)
    (hs : sleepDevice writes l = some (ret, l')) :
    l'.speed = l.speed ∧ l'.awake = chipHears l.awake (l.speed, [sleepStr]) := by
  obtain ⟨n, hn, -⟩ := id h
  simp only [sleepDevice, writeToken, hn, token_written hn h, Option.map_some, Option.some.injEq,
    Prod.mk.injEq] at hs
  obtain ⟨-, rfl⟩ := hs
  exact ⟨rfl, awake_write l [sleepStr]⟩

structure WakeTurn.Reliable (turn : WakeTurn) : Prop where
  wakeAttr : turn.wakeAttr.work
  attr : turn.attr.work
  wake : Takes turn.wake 1
  sleep : Takes turn.sleep 1

theorem wake_awake {status : Status} {l' : Line} (hr : turn.Reliable)
    (h : WakeCase turn l status l') :
    l'.speed = OPPBAUD ∧ (l'.awake = true ↔ status = shaSuccess) := by
  have hspeed : ∀ n taken, (Roused turn l n taken).speed = OPPBAUD :=
    fun n taken => setBaudRate_speed hr.attr
  have hroused : ∀ n taken, writeRetried turn.wake = some (.accepted n) →
      (∀ b ∈ taken, marks b = true) → (Roused turn l n taken).awake = true := by
    intro n taken hwake ht
    rw [Roused, awake_write, protocol_not_heard _ _ ht, setBaudRate_awake,
      token_written hwake hr.wake, awake_write, setBaudRate_speed hr.wakeAttr]
    rfl
  cases h with
  | unwritten h =>
    obtain ⟨n, hn, -⟩ := hr.wake
    exact absurd hn (h n)
  | roused n taken ht hwake _ => exact ⟨hspeed n taken, iff_of_true (hroused n taken hwake ht) rfl⟩
  | asleep n taken ret status l' ht hwake _ hs hstatus =>
    obtain ⟨hsame, hawake⟩ := sleep_awake hr.sleep hs
    rw [hspeed] at hsame hawake
    refine ⟨hsame, iff_of_false ?_ ?_⟩
    · rw [hawake, chipHears, if_neg (by decide), if_pos rfl]
      exact Bool.false_ne_true
    · rcases hstatus with rfl | rfl <;> decide

variable (hfits : (roused turn.passes).length ≤ maxBufLen)
  (h : shapWakeDevice S turn l m = some t)
include hfits h

/-- A wake succeeds exactly when its token is written and the chip answers as a whole and
rightly; where the tokens reach the chip it is then awake, and asleep otherwise. -/
theorem wake_success_iff : (t.status = shaSuccess ↔
      (∃ n, writeRetried turn.wake = some (.accepted n)) ∧ Rouses turn.passes) ∧
    (turn.Reliable → (t.line.awake = true ↔ t.status = shaSuccess)) := by
  have hcase := wake_cases hfits h
  refine ⟨?_, fun hr => (wake_awake hr hcase).2⟩
  generalize t.status = status at hcase ⊢
  generalize t.line = l' at hcase
  cases hcase with
  | unwritten hnot => exact iff_of_false (by decide) (fun ⟨⟨n, hn⟩, _⟩ => hnot n hn)
  | roused n taken _ hwake hr => exact iff_of_true rfl ⟨⟨n, hwake⟩, hr⟩
  | asleep n taken ret status l' _ _ hr _ hstatus =>
    refine iff_of_false ?_ (fun ⟨_, hrouses⟩ => hr hrouses)
    rcases hstatus with rfl | rfl <;> decide

end Wake

def promptTurn : WakeTurn where
  wakeAttr := ⟨true, true⟩
  wake := [.interrupted, .accepted 1]
  attr := ⟨true, true⟩
  writes := [.accepted 8]
  passes := [readyPass (List.replicate 9 0x7F),
    readyPass (([0x04, 0x11, 0x33, 0x43] : List Byte).flatMap chipBits)]
  sleep := [.accepted 1]

theorem promptTurn_reliable : promptTurn.Reliable where
  wakeAttr := by decide
  attr := by decide
  wake := ⟨1, rfl, le_rfl⟩
  sleep := ⟨1, rfl, le_rfl⟩

theorem promptTurn_answered : promptTurn.Answered where
  wake := by decide
  written := by decide
  read := by
    refine ⟨?_, by decide +kernel, .inr (by decide +kernel)⟩
    intro p hp received hr
    simp only [promptTurn, List.mem_cons, List.not_mem_nil, or_false] at hp
    rcases hp with rfl | rfl <;> rw [readyPass_reads _ _ hr] <;> decide
  sleep := by decide

theorem wake_success_prompt : ∃ t,
    shapWakeDevice statics promptTurn ⟨.B0, []⟩ blank = some t ∧ t.status = shaSuccess ∧
      t.line.awake = true := by
  obtain ⟨t, ht⟩ := wake_returns statics ⟨.B0, []⟩ blank promptTurn_answered
  obtain ⟨hiff, hawake⟩ := wake_success_iff (by decide +kernel) ht
  have hstatus := hiff.mpr ⟨⟨1, rfl⟩, by decide +kernel⟩
  exact ⟨t, ht, hstatus, (hawake promptTurn_reliable).mpr hstatus⟩

end Wingray.WhisperWake
