import Wingray.WhisperLine

/-!
# The commands

`SHAC_Read` and `SHAC_Mac` lay out a command in the static send buffer and exchange it
for a response in the static receive buffer.
-/

set_option autoImplicit false

namespace Wingray.WhisperCommand
open Wingray.CellMemory Wingray.WhisperCrc Wingray.WhisperExchange Wingray.WhisperSerial
open Wingray.WhisperRaw Wingray.WhisperReceive Wingray.WhisperSend Wingray.WhisperLine

def macOrdinal : Byte := 0x08
def readOrdinal : Byte := 0x02
def macChallIdx : ℕ := 5
def macKeyidIdx : ℕ := 3
def readAddrIdx : ℕ := 3
def macCountShort : Byte := 7
def macCountLarge : Byte := 39
def readCount : Byte := 7
def macDelay : BitVec 32 := 30000
def generalCmdDelay : BitVec 32 := 1000

inductive Command
  | mac (mode : Byte) (keyID : Word) (challenge : Option ℕ)
  | read (zone : Byte) (address : Word)

def wordBytes (w : Word) : List Byte := [w.setWidth 8, (w >>> 8).setWidth 8]

def macFilled (S : Statics) (mode : Byte) (keyID : Word) (challenge : Option ℕ)
    (m : Memory Byte) : Memory Byte :=
  let m := storeWord (store m S.sendbuf [macCountShort, macOrdinal, mode])
    (S.sendbuf+macKeyidIdx) keyID
  match challenge with
  | none => m
  | some challenge =>
    if mode &&& 0x01 = 0 then
      store (copy m (S.sendbuf+macChallIdx) challenge 32) S.sendbuf [macCountLarge]
    else m

def shacMac (S : Statics) (mode : Byte) (keyID : Word) (challenge : Option ℕ)
    (turns : List Turn) (m : Memory Byte) : Option Report :=
  shacSendAndReceive S ⟨some S.sendbuf, some S.receicebuf, 35, macDelay⟩ turns
    (macFilled S mode keyID challenge m)

def readFilled (S : Statics) (zone : Byte) (address : Word) (m : Memory Byte) : Memory Byte :=
  storeWord (store m S.sendbuf [readCount, readOrdinal, zone]) (S.sendbuf+readAddrIdx) address

def shacRead (S : Statics) (zone : Byte) (address : Word) (turns : List Turn)
    (m : Memory Byte) : Option Report :=
  shacSendAndReceive S ⟨some S.sendbuf, some S.receicebuf,
    if zone &&& 0x80 ≠ 0 then 35 else 7, generalCmdDelay⟩ turns (readFilled S zone address m)

/-! ## Commands in general -/

namespace Command

def run (S : Statics) : Command → List Turn → Memory Byte → Option Report
  | .mac mode keyID challenge => shacMac S mode keyID challenge
  | .read zone address => shacRead S zone address

def rxSize : Command → Byte
  | .mac _ _ _ => 35
  | .read zone _ => if zone &&& 0x80 ≠ 0 then 35 else 7

def filled (S : Statics) (m : Memory Byte) : Command → Memory Byte
  | .mac mode keyID challenge => macFilled S mode keyID challenge m
  | .read zone address => readFilled S zone address m

def macHeader (mode : Byte) (keyID : Word) : List Byte :=
  [macCountShort, macOrdinal, mode] ++ wordBytes keyID

/-- The command up to its check word. The challenge is taken from the memory in which
the header is already in place. -/
def body (S : Statics) (m : Memory Byte) : Command → List Byte
  | .mac mode keyID challenge =>
    match challenge with
    | none => macHeader mode keyID
    | some challenge =>
      if mode &&& 0x01 = 0 then [macCountLarge, macOrdinal, mode] ++ wordBytes keyID ++
        slice (store m S.sendbuf (macHeader mode keyID)) challenge 32
      else macHeader mode keyID
  | .read zone address => [readCount, readOrdinal, zone] ++ wordBytes address

end Command

/-- A command with its check word, as it goes out behind the token. -/
def checked (body : List Byte) : List Byte := body ++ wordBytes (crcBytes body)

section Layout

variable {S : Statics} {m : Memory Byte}

theorem store_three_word (a : ℕ) (x y z : Byte) (w : Word) :
    storeWord (store m a [x, y, z]) (a+3) w = store m a ([x, y, z] ++ wordBytes w) :=
  store_append m a [x, y, z] (wordBytes w)

theorem store_head (a : ℕ) (x y : Byte) (xs : List Byte) :
    store (store m a (x::xs)) a [y] = store m a (y::xs) := by
  rw [← store_before m a x xs, store_again _ a [x] [y] rfl, store_before]

theorem filled_eq (S : Statics) (m : Memory Byte) (c : Command) :
    c.filled S m = store m S.sendbuf (c.body S m) := by
  cases c with
  | read zone address => exact store_three_word S.sendbuf readCount readOrdinal zone address
  | mac mode keyID challenge =>
    have hheader : storeWord (store m S.sendbuf [macCountShort, macOrdinal, mode])
        (S.sendbuf+macKeyidIdx) keyID = store m S.sendbuf (Command.macHeader mode keyID) :=
      store_three_word S.sendbuf macCountShort macOrdinal mode keyID
    cases challenge with
    | none => exact hheader
    | some challenge =>
      simp only [Command.filled, macFilled, hheader, Command.body]
      split_ifs with hmode
      · have happend := store_append m S.sendbuf (Command.macHeader mode keyID)
          (slice (store m S.sendbuf (Command.macHeader mode keyID)) challenge 32)
        have hlength : (Command.macHeader mode keyID).length = macChallIdx := rfl
        rw [hlength] at happend
        rw [copy, happend]
        exact store_head _ _ _ _
      · rfl

theorem body_counted (S : Statics) (m : Memory Byte) (c : Command) :
    ∃ count rest, c.body S m = count::rest ∧ count.toNat = rest.length+3 ∧
      (count = 7 ∨ count = 39) := by
  cases c with
  | read zone address => exact ⟨_, _, rfl, rfl, .inl rfl⟩
  | mac mode keyID challenge =>
    cases challenge with
    | none => exact ⟨_, _, rfl, rfl, .inl rfl⟩
    | some challenge =>
      simp only [Command.body]
      split_ifs
      · refine ⟨_, _, rfl, ?_, .inr rfl⟩
        simp [wordBytes, macCountLarge]
      · exact ⟨_, _, rfl, rfl, .inl rfl⟩

theorem rxSize_cases (c : Command) : c.rxSize = 35 ∨ c.rxSize = 7 := by
  cases c with
  | mac mode keyID challenge => exact .inl rfl
  | read zone address =>
    simp only [Command.rxSize]
    split_ifs <;> simp

theorem run_eq (S : Statics) (c : Command) (turns : List Turn) (m : Memory Byte) :
    ∃ delay, c.run S turns m = shacSendAndReceive S ⟨some S.sendbuf, some S.receicebuf, c.rxSize,
      delay⟩ turns (c.filled S m) := by
  cases c with
  | mac mode keyID challenge => exact ⟨macDelay, rfl⟩
  | read zone address => exact ⟨generalCmdDelay, rfl⟩

theorem body_size (S : Statics) (m : Memory Byte) (c : Command) :
    ∃ count, c.filled S m S.sendbuf = count ∧ count.toNat = (c.body S m).length+2 ∧
      (count = 7 ∨ count = 39) := by
  obtain ⟨count, rest, hbody, hsize, hcases⟩ := body_counted S m c
  refine ⟨count, ?_, by rw [hbody, List.length_cons, hsize], hcases⟩
  rw [filled_eq, hbody]
  exact store_inside m S.sendbuf (count::rest) 0 (by simp)

theorem checked_length (body : List Byte) : (checked body).length = body.length+2 := by
  simp [checked, wordBytes]

theorem withCheck_eq (S : Statics) (m : Memory Byte) (c : Command) :
    withCheck S.sendbuf (c.filled S m) = store m S.sendbuf (checked (c.body S m)) := by
  obtain ⟨count, hcount, hsize, -⟩ := body_size S m c
  have hminus : (count-2).toNat = (c.body S m).length := by
    rw [BitVec.toNat_sub_of_le (by rw [BitVec.le_def]; show 2 ≤ _; omega), hsize]
    rfl
  have hslice := slice_store m S.sendbuf (c.body S m)
  simp only [withCheck, shaBufferPosCount, Nat.add_zero, hcount, hminus, shacCalculateCrc]
  rw [filled_eq, hslice]
  exact store_append m S.sendbuf (c.body S m) (wordBytes (crcBytes (c.body S m)))

theorem word_bytes_append (w : Word) : (w >>> 8).setWidth 8 ++ w.setWidth 8 = w := by
  apply BitVec.eq_of_getLsbD_eq
  intro i hi
  rw [BitVec.getLsbD_append]
  split_ifs with hlow
  · simp [hlow]
  · simp only [BitVec.getLsbD_setWidth, BitVec.getLsbD_ushiftRight]
    rw [decide_eq_true (by omega), Bool.true_and]
    congr 1
    omega

/-- A command passes the check that responses have to pass. -/
theorem checked_verified (S : Statics) (m : Memory Byte) (c : Command) :
    ∃ count, count.toNat = (c.body S m).length+2 ∧
      Verified (store (fun _ => 0) 0 (checked (c.body S m))) 0 count := by
  obtain ⟨count, rest, hbody, hsize, -⟩ := body_counted S m c
  have hlength : (c.body S m).length = rest.length+1 := by rw [hbody, List.length_cons]
  have hminus : (count-2).toNat = (c.body S m).length := by
    rw [BitVec.toNat_sub_of_le (by rw [BitVec.le_def]; show 2 ≤ _; omega)]
    show count.toNat-2 = _
    omega
  refine ⟨count, by omega, ?_, ?_⟩
  · rw [hbody]
    exact store_inside _ 0 (checked (count::rest)) 0 (by simp [checked])
  · have happend := store_append (fun _ => 0) 0 (c.body S m) (wordBytes (crcBytes (c.body S m)))
    have hslice := slice_store (fun _ => (0 : Byte)) 0 (c.body S m)
    have hbelow : slice (store (fun _ => 0) 0 (checked (c.body S m))) 0 (c.body S m).length =
        c.body S m := by
      rw [checked, ← happend]
      refine (slice_congr fun i hi => ?_).trans hslice
      exact store_below _ _ _ _ (by omega)
    have hword : loadWord (store (fun _ => 0) 0 (checked (c.body S m))) (0+(c.body S m).length) =
        crcBytes (c.body S m) := by
      rw [checked, ← happend, loadWord]
      have hlow := store_inside (store (fun _ => 0) 0 (c.body S m)) (0+(c.body S m).length)
        (wordBytes (crcBytes (c.body S m))) 0 (by simp [wordBytes])
      have hhigh := store_inside (store (fun _ => 0) 0 (c.body S m)) (0+(c.body S m).length)
        (wordBytes (crcBytes (c.body S m))) 1 (by simp [wordBytes])
      rw [Nat.add_zero] at hlow
      rw [hlow, hhigh]
      exact word_bytes_append _
    simp only [frameCheck, shacCalculateCrc, hminus, hword, hbelow, beq_self_eq_true]

theorem command_permitted (S : Statics) (m : Memory Byte) (c : Command) :
    shaCommandSizeMin ≤ c.filled S m S.sendbuf := by
  obtain ⟨count, hcount, -, hcases⟩ := body_size S m c
  rw [hcount]
  rcases hcases with rfl | rfl <;> decide

theorem response_permitted (S : Statics) (c : Command) : 5 ≤ c.rxSize.toNat ∧
    c.rxSize.toNat ≤ 62 ∧ Apart S.readwriteBuf S.receicebuf c.rxSize.toNat := by
  have hsize : 5 ≤ c.rxSize.toNat ∧ c.rxSize.toNat ≤ 62 := by
    rcases rxSize_cases c with hr | hr <;> rw [hr] <;> decide
  have hapart := S.receicebuf_apart
  simp only [Apart, receivebufSize] at hapart ⊢
  exact ⟨hsize.1, hsize.2, by omega⟩

end Layout

/-! ## What goes out and what comes back -/

section Calls

variable {S : Statics} {m : Memory Byte} {turn : Turn} {turns : List Turn} {report : Report}

theorem send_handed {count : Byte} {buffer : ℕ} {t : Sent} (h1 : 1 ≤ count.toNat)
    (h62 : count.toNat ≤ 62) (hapart : Apart S.readwriteBuf buffer (count.toNat+1))
    (h : shapSendCommand S count buffer turn m = some t) :
    t.handed = encoding (frame m buffer count.toNat) := by
  obtain ⟨w, r, hw, -, rfl⟩ := sendBytes_inv h1 h
  have hlen := succ_toNat count
  rw [if_neg (by omega)] at hlen
  simp only [Apart, maxBufLen] at hapart
  rcases writeToDevice_cases (by rw [hlen, maxBufLen]; omega) hw with
    ⟨hlarge, -⟩ | ⟨-, -, hhanded, -⟩
  · rw [hlen, maxBufLen] at hlarge
    omega
  · show w.handed = _
    rw [hhanded, hlen, framed_slice]

theorem run_inv {c : Command} (h : c.run S turns m = some report) :
    ∃ count turn rest first ex, turns = turn::rest ∧ count.toNat = (c.body S m).length+2 ∧
      count.toNat ≤ 39 ∧ shapSendCommand S count S.sendbuf turn
        (store m S.sendbuf (checked (c.body S m))) = some first ∧
      receiveLoop S S.receicebuf c.rxSize shaRetryCount 0 rest first.memory = some ex ∧
      report = ⟨ex, [first]⟩ := by
  obtain ⟨delay, hrun⟩ := run_eq S c turns m
  obtain ⟨count, hcount, hsize, hcases⟩ := body_size S m c
  have hmin := command_permitted S m c
  have h4 : shaResponseSizeMin ≤ c.rxSize := by
    rcases rxSize_cases c with hr | hr <;> rw [hr] <;> decide
  rw [hrun] at h
  obtain ⟨turn, rest, first, ex, rfl, hfirst, hex, rfl⟩ := exchange_inv rfl rfl hmin h4 h
  rw [hcount, withCheck_eq] at hfirst
  refine ⟨count, turn, rest, first, ex, rfl, hsize, ?_, hfirst, hex, rfl⟩
  rcases hcases with rfl | rfl <;> decide

/-- A command returns once its send and as many receives as it may make are answered. -/
theorem command_returns (c : Command)
    (hsend : turn.Answered (rawLength (c.filled S m S.sendbuf)))
    (hlength : shaRetryCount < turns.length)
    (h : ∀ turn ∈ turns, turn.Answered (rawLength c.rxSize)) :
    ∃ report, c.run S (turn::turns) m = some report := by
  obtain ⟨delay, hrun⟩ := run_eq S c (turn::turns) m
  have h4 : shaResponseSizeMin ≤ c.rxSize := by
    rcases rxSize_cases c with hr | hr <;> rw [hr] <;> decide
  rw [hrun]
  exact exchange_returns rfl rfl (command_permitted S m c) h4 (response_permitted S c).2.1 hsend
    hlength h

end Calls

/-- The echo is cut off, so is the first response, and the second one is whole. -/
def readTurns : List Turn :=
  [⟨[.accepted 64], [timeoutPass]⟩, ⟨[.accepted 8], [readyPass [0x7F], timeoutPass]⟩,
    ⟨[.interrupted, .accepted 8], [readyPass (List.replicate 8 0x7F ++
      ([7, 1, 2, 3, 4, 0xF3, 0x28] : List Byte).flatMap chipBits)]⟩]

theorem readTurns_run : ∃ report,
    (Command.read 1 2).run statics readTurns blank = some report := by
  have hsome : ((Command.read 1 2).run statics readTurns blank).isSome = true := by decide +kernel
  exact Option.isSome_iff_exists.mp hsome

section Framed

variable {S : Statics} {m : Memory Byte} {turns : List Turn} {report : Report}

/-- A command goes out once, behind the token and with a check word that holds. -/
theorem command_framed {c : Command} (h : c.run S turns m = some report) :
    ∃ sent count, report.sent = [sent] ∧
      sent.handed = encoding (cmdStr::checked (c.body S m)) ∧
      count.toNat = (checked (c.body S m)).length ∧
      Verified (store (fun _ => 0) 0 (checked (c.body S m))) 0 count := by
  obtain ⟨count, turn, rest, first, ex, rfl, hsize, hle, hfirst, -, rfl⟩ := run_inv h
  obtain ⟨count', hsize', hverified⟩ := checked_verified S m c
  have hlength := checked_length (c.body S m)
  have hapart := S.sendbuf_apart
  simp only [Apart, sendbufSize] at hapart
  refine ⟨first, count', rfl, ?_, by rw [hlength, hsize'], hverified⟩
  rw [send_handed (by omega) (by omega) (by simp only [Apart]; omega) hfirst, frame]
  congr 2
  rw [hsize, ← hlength]
  exact slice_store m S.sendbuf (checked (c.body S m))

theorem command_framed_read : ∃ report sent,
    (Command.read 1 2).run statics readTurns blank = some report ∧ report.sent = [sent] ∧
      sent.handed = encoding [0x77, 7, 2, 1, 2, 0, 0x1B, 0x27] := by
  obtain ⟨report, hrun⟩ := readTurns_run
  obtain ⟨sent, _, hsent, hhanded, -, -⟩ := command_framed hrun
  have hbody : checked ((Command.read 1 2).body statics blank) = [7, 2, 1, 2, 0, 0x1B, 0x27] := by
    decide +kernel
  rw [hbody] at hhanded
  exact ⟨report, sent, hrun, hsent, hhanded⟩

theorem sent_marks {c : Command} (h : c.run S turns m = some report) :
    ∀ sent ∈ report.sent, ∀ b ∈ sent.taken, marks b = true := by
  obtain ⟨count, turn, rest, first, ex, rfl, hsize, hle, hfirst, -, rfl⟩ := run_inv h
  obtain ⟨w, r, hw, -, hsent⟩ := sendBytes_inv (by omega) hfirst
  have hlen := succ_toNat count
  rw [if_neg (by omega)] at hlen
  have hapart := S.sendbuf_apart
  simp only [Apart, sendbufSize] at hapart
  intro sent hmem
  rw [List.mem_singleton.mp hmem, hsent]
  refine taken_marks (fun i hi => ?_) hw
  rw [hlen] at hi
  omega

/-- A command succeeds with the first response that is not garbled, if that is verified
or the status packet of a communication error. -/
theorem command_accepts {c : Command}
    (hfits : ∀ turn ∈ turns.tail, FitsBuffer c.rxSize turn.passes)
    (h : c.run S turns m = some report) :
    (report.exchange.status = shaSuccess → ∃ k, Accepted c.rxSize turns.tail k) ∧
      ∀ k, Accepted c.rxSize turns.tail k →
        Returned S.receicebuf c.rxSize turns.tail k report.exchange := by
  obtain ⟨delay, hrun⟩ := run_eq S c turns m
  obtain ⟨h5, h62, hapart⟩ := response_permitted S c
  rw [hrun] at h
  exact line_accepts rfl rfl (command_permitted S m c) h5 h62 hapart hfits h

end Framed

theorem command_accepts_read : ∃ report,
    (Command.read 1 2).run statics readTurns blank = some report ∧
      report.exchange.status = shaSuccess ∧ report.exchange.receives = 2 ∧
      slice report.exchange.memory 1200 7 = [7, 1, 2, 3, 4, 0xF3, 0x28] := by
  obtain ⟨report, hrun⟩ := readTurns_run
  have hfits : ∀ turn ∈ readTurns.tail, FitsBuffer (Command.read 1 2).rxSize turn.passes := by
    decide +kernel
  have hgarbled : ∀ j < 1, Garbled 7 readTurns.tail j := by
    intro j hj
    obtain rfl : j = 0 := by omega
    have hcount : response (reply 7 readTurns.tail 0) 0 = 0 := by decide +kernel
    refine ⟨by decide +kernel, ?_, ?_⟩
    · intro hp
      exact absurd (hcount.symm.trans hp) (by decide)
    · intro hv
      exact absurd (hcount.symm.trans hv.1) (by decide)
  have hverified : Verified (response (reply 7 readTurns.tail 1)) 0 7 :=
    ⟨by decide +kernel, by decide +kernel⟩
  obtain ⟨hstatus, hreceives, -, hbytes⟩ := (command_accepts hfits hrun).2 1
    ⟨by decide, hgarbled, .inl hverified⟩
  refine ⟨report, hrun, hstatus, hreceives, hbytes.trans ?_⟩
  decide +kernel

end Wingray.WhisperCommand
