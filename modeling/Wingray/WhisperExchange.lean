import Wingray.WhisperCrc

/-!
# One command and its response

The port answers every send and every receive with a status and the bytes it
leaves in the caller's buffer. The exchange appends the check word, sends the
command at most twice and asks for the response at most four times.
-/

set_option autoImplicit false

namespace Wingray.WhisperExchange
open Wingray.CellMemory Wingray.WhisperCrc

/-- The eight bits of an `int8_t` status. -/
abbrev Status := BitVec 8

def shaSuccess : Status := 0x00
def shaBadParam : Status := 0xD1
def shaParseError : Status := 0xD2
def shaCmdFail : Status := 0xD3
def shaStatusUnknown : Status := 0xD4
def shaCommFail : Status := 0xF0
def shaBadSize : Status := 0xF2
def shaBadCrc : Status := 0xF6

def shaCommandSizeMin : Byte := 6
def shaResponseSizeMin : Byte := 4
def shaBufferPosCount : ℕ := 0
def shaBufferPosStatus : ℕ := 1
def shaStatusByteParse : Byte := 0x03
def shaStatusByteExec : Byte := 0x0F
def shaStatusByteComm : Byte := 0xFF
def shaRetryCount : ℕ := 3

structure ShaCommParameters where
  txBuffer : Option ℕ
  rxBuffer : Option ℕ
  rxSize : Byte
  executionDelay : BitVec 32
  deriving DecidableEq

/-- What a call of `SHAP_SendCommand` or `SHAP_ReceiveResponse` returns and the
bytes it leaves at the start of the buffer it was given. -/
structure Outcome where
  status : Status
  bytes : List Byte
  deriving DecidableEq

structure Port where
  shapSendCommand : ℕ → Outcome
  shapReceiveResponse : ℕ → Outcome

structure Exchange where
  status : Status
  memory : Memory Byte
  receives : ℕ

/-- How one pass of the receive loop ends: a `return`, or the loop condition
with the current value of `status`. -/
inductive Verdict where
  | finished (status : Status)
  | condition (status : Status)
  deriving DecidableEq

/-- A status packet in place of the full response. After a communication error
the `continue` reaches the loop condition with the status of the receive call. -/
def statusPacket (statusByte : Byte) (status : Status) : Verdict :=
  if statusByte = shaStatusByteParse then .finished shaParseError
  else if statusByte = shaStatusByteExec then .finished shaCmdFail
  else if statusByte ≠ shaStatusByteComm then .finished shaStatusUnknown
  else .condition status

def verifyResponse (m : Memory Byte) (rxBuffer : ℕ) (rxSize : Byte) (status : Status) : Verdict :=
  if status ≠ shaSuccess ∧ m (rxBuffer+shaBufferPosCount) = 0 then .finished status
  else if rxSize ≠ shaResponseSizeMin ∧ m (rxBuffer+shaBufferPosCount) = shaResponseSizeMin then
    statusPacket (m (rxBuffer+shaBufferPosStatus)) status
  else if m (rxBuffer+shaBufferPosCount) ≠ rxSize then .condition shaBadSize
  else .condition (if frameCheck m rxBuffer rxSize then shaSuccess else shaBadCrc)

def resetAndReceive (m : Memory Byte) (rxBuffer : ℕ) (rxSize : Byte) (out : Outcome) :
    Memory Byte :=
  store (store m rxBuffer (List.replicate rxSize.toNat 0)) rxBuffer (out.bytes.take rxSize.toNat)

/-- The `do … while (nRetries-- && status != SHA_SUCCESS)` loop. The counter is
not looked at again after it has wrapped below zero. -/
def receiveLoop (port : Port) (rxBuffer : ℕ) (rxSize : Byte) : ℕ → ℕ → Memory Byte → Exchange
  | nRetries, call, m =>
    let out := port.shapReceiveResponse call
    let m := resetAndReceive m rxBuffer rxSize out
    match verifyResponse m rxBuffer rxSize out.status with
    | .finished status => ⟨status, m, call+1⟩
    | .condition status =>
      match nRetries with
      | 0 => ⟨status, m, call+1⟩
      | nRetries+1 =>
        if status ≠ shaSuccess then receiveLoop port rxBuffer rxSize nRetries (call+1) m
        else ⟨status, m, call+1⟩

/-- The parameters are read before the null test of `params`, so the test
never decides anything. The delay before the loop touches no buffer. -/
def shacSendAndReceive (port : Port) (params : ShaCommParameters) (m : Memory Byte) : Exchange :=
  match params.txBuffer, params.rxBuffer with
  | some txBuffer, some rxBuffer =>
    let count := m (txBuffer+shaBufferPosCount)
    let countMinusCrc := count-2
    if count < shaCommandSizeMin ∨ params.rxSize < shaResponseSizeMin then ⟨shaBadParam, m, 0⟩
    else
      let m := storeWord m (txBuffer+countMinusCrc.toNat) (shacCalculateCrc m txBuffer countMinusCrc)
      let first := port.shapSendCommand 0
      let m := store m txBuffer first.bytes
      if first.status ≠ shaSuccess then
        let second := port.shapSendCommand 1
        let m := store m txBuffer second.bytes
        if second.status ≠ shaSuccess then ⟨second.status, m, 0⟩
        else receiveLoop port rxBuffer params.rxSize shaRetryCount 0 m
      else receiveLoop port rxBuffer params.rxSize shaRetryCount 0 m
  | _, _ => ⟨shaBadParam, m, 0⟩

/-! ## Responses by themselves -/

/-- The frame a receive leaves behind, placed in an empty memory. -/
def response (out : Outcome) : Memory Byte := fun i => out.bytes.getD i 0

def Verified (m : Memory Byte) (rxBuffer : ℕ) (rxSize : Byte) : Prop :=
  m (rxBuffer+shaBufferPosCount) = rxSize ∧ frameCheck m rxBuffer rxSize = true

def StatusPacket (out : Outcome) : Prop := response out shaBufferPosCount = shaResponseSizeMin

def CommError (out : Outcome) : Prop :=
  StatusPacket out ∧ response out shaBufferPosStatus = shaStatusByteComm

def Corrupted (rxSize : Byte) (out : Outcome) : Prop :=
  ¬ StatusPacket out ∧ ¬ Verified (response out) 0 rxSize

def Lost (out : Outcome) : Prop :=
  out.status ≠ shaSuccess ∧ response out shaBufferPosCount = 0

/-- Outcomes after which the response is asked for again while retries last. -/
def Repeated (rxSize : Byte) (out : Outcome) : Prop :=
  ¬ Lost out ∧ (Corrupted rxSize out ∨ (CommError out ∧ out.status ≠ shaSuccess))

theorem reset_receive_at (m : Memory Byte) (rxBuffer : ℕ) (rxSize : Byte) (out : Outcome)
    (i : ℕ) (hi : i < rxSize.toNat) :
    resetAndReceive m rxBuffer rxSize out (rxBuffer+i) = response out i := by
  have hle : rxBuffer ≤ rxBuffer+i := Nat.le_add_right _ _
  simp only [resetAndReceive, store, hle, if_true, Nat.add_sub_cancel_left, response]
  by_cases hb : i < out.bytes.length
  · simp [hb, hi]
  · simp [hb, hi]

theorem frameCheck_congr (m m' : Memory Byte) (a a' : ℕ) (rxSize : Byte) (h2 : 2 ≤ rxSize.toNat)
    (h : ∀ i < rxSize.toNat, m (a+i) = m' (a'+i)) :
    frameCheck m a rxSize = frameCheck m' a' rxSize := by
  have hsize : (rxSize-2).toNat = rxSize.toNat-2 := BitVec.toNat_sub_of_le h2
  have hslice : slice m a (rxSize.toNat-2) = slice m' a' (rxSize.toNat-2) := by
    apply List.map_congr_left
    intro i hi
    have hi' := List.mem_range.mp hi
    exact h i (by omega)
  have hlo := h (rxSize.toNat-2) (by omega)
  have hhi := h (rxSize.toNat-2+1) (by omega)
  simp only [frameCheck, shacCalculateCrc, loadWord, hsize, hslice, hlo]
  rw [Nat.add_assoc, Nat.add_assoc, hhi]

theorem verify_received (m : Memory Byte) (rxBuffer : ℕ) (rxSize : Byte) (out : Outcome)
    (h2 : 2 ≤ rxSize.toNat) (status : Status) :
    verifyResponse (resetAndReceive m rxBuffer rxSize out) rxBuffer rxSize status =
      verifyResponse (response out) 0 rxSize status := by
  have hat := reset_receive_at m rxBuffer rxSize out
  have hcrc : frameCheck (resetAndReceive m rxBuffer rxSize out) rxBuffer rxSize =
      frameCheck (response out) 0 rxSize :=
    frameCheck_congr _ _ _ _ rxSize h2 (by simpa using hat)
  simp only [verifyResponse, shaBufferPosCount, shaBufferPosStatus, hat 0 (by omega),
    hat 1 (by omega), hcrc, Nat.zero_add]

theorem size_not_min (rxSize : Byte) (h5 : 5 ≤ rxSize.toNat) : rxSize ≠ shaResponseSizeMin := by
  rintro rfl
  exact absurd h5 (by decide)

theorem verify_lost (rxSize : Byte) (out : Outcome) (h : Lost out) :
    verifyResponse (response out) 0 rxSize out.status = .finished out.status := by
  have h' : out.status ≠ shaSuccess ∧ response out (0+shaBufferPosCount) = 0 := h
  rw [verifyResponse, if_pos h']

theorem verify_packet (rxSize : Byte) (out : Outcome) (h4 : rxSize ≠ shaResponseSizeMin)
    (hl : ¬ Lost out) (h : StatusPacket out) :
    verifyResponse (response out) 0 rxSize out.status =
      statusPacket (response out shaBufferPosStatus) out.status := by
  have hl' : ¬ (out.status ≠ shaSuccess ∧ response out (0+shaBufferPosCount) = 0) := hl
  have h' : response out (0+shaBufferPosCount) = shaResponseSizeMin := h
  rw [verifyResponse, if_neg hl', if_pos ⟨h4,h'⟩, Nat.zero_add]

theorem verify_full (rxSize : Byte) (out : Outcome) (hl : ¬ Lost out) (h : ¬ StatusPacket out) :
    ∃ s, verifyResponse (response out) 0 rxSize out.status = .condition s ∧
      (s = shaSuccess ↔ Verified (response out) 0 rxSize) := by
  have hl' : ¬ (out.status ≠ shaSuccess ∧ response out (0+shaBufferPosCount) = 0) := hl
  have h' : ¬ (rxSize ≠ shaResponseSizeMin ∧
      response out (0+shaBufferPosCount) = shaResponseSizeMin) := fun hp => h hp.2
  rw [verifyResponse, if_neg hl', if_neg h']
  by_cases hcount : response out (0+shaBufferPosCount) = rxSize
  · rw [if_neg (not_not.mpr hcount)]
    have hbad : shaBadCrc ≠ shaSuccess := by decide
    have hiff : (if frameCheck (response out) 0 rxSize then shaSuccess else shaBadCrc) =
        shaSuccess ↔ Verified (response out) 0 rxSize := by
      cases hcrc : frameCheck (response out) 0 rxSize with
      | false => simp [Verified, hcrc, hbad]
      | true => simp only [Verified, hcrc, hcount, if_true, and_self]
    exact ⟨_, rfl, hiff⟩
  · rw [if_pos hcount]
    have hiff : shaBadSize = shaSuccess ↔ Verified (response out) 0 rxSize := by
      simp only [Verified, hcount, false_and, iff_false]
      decide
    exact ⟨shaBadSize, rfl, hiff⟩

theorem packet_comm (statusByte : Byte) (status : Status) (h : statusByte = shaStatusByteComm) :
    statusPacket statusByte status = .condition status := by
  subst h
  rfl

theorem packet_other (statusByte : Byte) (status : Status) (h : statusByte ≠ shaStatusByteComm) :
    ∃ s, s ≠ shaSuccess ∧ statusPacket statusByte status = .finished s := by
  unfold statusPacket
  split
  · exact ⟨_, by decide, rfl⟩
  split
  · exact ⟨_, by decide, rfl⟩
  · exact ⟨shaStatusUnknown, by decide, rfl⟩

theorem verdict_repeated (rxSize : Byte) (out : Outcome) (h4 : rxSize ≠ shaResponseSizeMin)
    (h : Repeated rxSize out) :
    ∃ s, s ≠ shaSuccess ∧ verifyResponse (response out) 0 rxSize out.status = .condition s := by
  obtain ⟨hl, ⟨hpacket, hverified⟩ | ⟨⟨hpacket, hcomm⟩, hstatus⟩⟩ := h
  · obtain ⟨s, hs, hiff⟩ := verify_full rxSize out hl hpacket
    exact ⟨s, fun h => hverified (hiff.mp h), hs⟩
  · rw [verify_packet rxSize out h4 hl hpacket, packet_comm _ _ hcomm]
    exact ⟨out.status, hstatus, rfl⟩

/-- An outcome that is not repeated either returns a failure or reaches the
loop condition with success, which a communication error does as well. -/
theorem verdict_settled (rxSize : Byte) (out : Outcome) (h4 : rxSize ≠ shaResponseSizeMin)
    (h : ¬ Repeated rxSize out) :
    (∃ s, s ≠ shaSuccess ∧ verifyResponse (response out) 0 rxSize out.status = .finished s) ∨
    (verifyResponse (response out) 0 rxSize out.status = .condition shaSuccess ∧
      ((CommError out ∧ out.status = shaSuccess) ∨
        (¬ StatusPacket out ∧ Verified (response out) 0 rxSize))) := by
  by_cases hl : Lost out
  · exact Or.inl ⟨out.status, hl.1, verify_lost rxSize out hl⟩
  have hcorrupted : ¬ Corrupted rxSize out := fun hc => h ⟨hl, Or.inl hc⟩
  by_cases hpacket : StatusPacket out
  · rw [verify_packet rxSize out h4 hl hpacket]
    by_cases hcomm : response out shaBufferPosStatus = shaStatusByteComm
    · have hstatus : out.status = shaSuccess := by
        by_contra hne
        exact h ⟨hl, Or.inr ⟨⟨hpacket, hcomm⟩, hne⟩⟩
      rw [packet_comm _ _ hcomm, hstatus]
      exact Or.inr ⟨rfl, Or.inl ⟨⟨hpacket, hcomm⟩, rfl⟩⟩
    · exact Or.inl (packet_other _ _ hcomm)
  · have hverified : Verified (response out) 0 rxSize := by
      by_contra hv
      exact hcorrupted ⟨hpacket, hv⟩
    obtain ⟨s, hs, hiff⟩ := verify_full rxSize out hl hpacket
    rw [hiff.mpr hverified] at hs
    exact Or.inr ⟨hs, Or.inr ⟨hpacket, hverified⟩⟩

/-! ## The receive loop -/

def Verdict.status : Verdict → Status
  | .finished status => status
  | .condition status => status

/-- The loop stops at call `k`: every earlier outcome was repeated, and the
outcome of `k` is not unless the retries are used up. -/
structure Stops (port : Port) (rxBuffer : ℕ) (rxSize : Byte) (first nRetries k : ℕ)
    (ex : Exchange) : Prop where
  within : k ≤ nRetries
  earlier : ∀ j < k, Repeated rxSize (port.shapReceiveResponse (first+j))
  settled : k < nRetries → ¬ Repeated rxSize (port.shapReceiveResponse (first+k))
  receives : ex.receives = first+k+1
  status : ex.status = (verifyResponse (response (port.shapReceiveResponse (first+k))) 0 rxSize
    (port.shapReceiveResponse (first+k)).status).status
  frame : ∀ i < rxSize.toNat, ex.memory (rxBuffer+i) =
    response (port.shapReceiveResponse (first+k)) i

theorem Stops.later {port : Port} {rxBuffer : ℕ} {rxSize : Byte} {first nRetries k : ℕ}
    {ex : Exchange} (hr : Repeated rxSize (port.shapReceiveResponse first))
    (h : Stops port rxBuffer rxSize (first+1) nRetries k ex) :
    Stops port rxBuffer rxSize first (nRetries+1) (k+1) ex := by
  have hshift : ∀ j, first+1+j = first+(j+1) := by omega
  constructor
  case within => exact Nat.succ_le_succ h.within
  case earlier =>
    intro j hj
    cases j with
    | zero => exact hr
    | succ j =>
      rw [← hshift]
      exact h.earlier j (by omega)
  case settled =>
    intro hk
    rw [← hshift]
    exact h.settled (by omega)
  case receives => rw [h.receives, hshift]
  case status =>
    rw [← hshift]
    exact h.status
  case frame =>
    rw [← hshift]
    exact h.frame

def lastPass (port : Port) (rxBuffer : ℕ) (rxSize : Byte) (call : ℕ) (m : Memory Byte) : Exchange :=
  let out := port.shapReceiveResponse call
  ⟨(verifyResponse (response out) 0 rxSize out.status).status,
    resetAndReceive m rxBuffer rxSize out, call+1⟩

theorem lastPass_stops (port : Port) (rxBuffer : ℕ) (rxSize : Byte) (first nRetries : ℕ)
    (m : Memory Byte)
    (hs : 0 < nRetries → ¬ Repeated rxSize (port.shapReceiveResponse first)) :
    Stops port rxBuffer rxSize first nRetries 0 (lastPass port rxBuffer rxSize first m) where
  within := Nat.zero_le _
  earlier := fun j hj => absurd hj (Nat.not_lt_zero j)
  settled := hs
  receives := rfl
  status := rfl
  frame := reset_receive_at m rxBuffer rxSize _

theorem receiveLoop_again (port : Port) (rxBuffer : ℕ) (rxSize : Byte) (h5 : 5 ≤ rxSize.toNat)
    (nRetries call : ℕ) (m : Memory Byte)
    (hr : Repeated rxSize (port.shapReceiveResponse call)) :
    receiveLoop port rxBuffer rxSize (nRetries+1) call m =
      receiveLoop port rxBuffer rxSize nRetries (call+1)
        (resetAndReceive m rxBuffer rxSize (port.shapReceiveResponse call)) := by
  obtain ⟨s, hne, hs⟩ := verdict_repeated rxSize _ (size_not_min rxSize h5) hr
  rw [receiveLoop]
  simp [verify_received m rxBuffer rxSize _ (by omega : 2 ≤ rxSize.toNat), hs, hne]

theorem receiveLoop_settles (port : Port) (rxBuffer : ℕ) (rxSize : Byte) (h5 : 5 ≤ rxSize.toNat)
    (nRetries call : ℕ) (m : Memory Byte)
    (hr : ¬ Repeated rxSize (port.shapReceiveResponse call)) :
    receiveLoop port rxBuffer rxSize nRetries call m = lastPass port rxBuffer rxSize call m := by
  rw [receiveLoop, lastPass]
  simp only [verify_received m rxBuffer rxSize _ (by omega : 2 ≤ rxSize.toNat)]
  rcases verdict_settled rxSize _ (size_not_min rxSize h5) hr with ⟨s, _, hs⟩ | ⟨hs, _⟩
  · simp [hs, Verdict.status]
  · cases nRetries <;> simp [hs, Verdict.status]

theorem receiveLoop_final (port : Port) (rxBuffer : ℕ) (rxSize : Byte) (h2 : 2 ≤ rxSize.toNat)
    (call : ℕ) (m : Memory Byte) :
    receiveLoop port rxBuffer rxSize 0 call m = lastPass port rxBuffer rxSize call m := by
  rw [receiveLoop]
  simp only [verify_received m rxBuffer rxSize _ h2, lastPass]
  cases verifyResponse (response (port.shapReceiveResponse call)) 0 rxSize
    (port.shapReceiveResponse call).status <;> rfl

theorem receiveLoop_stops (port : Port) (rxBuffer : ℕ) (rxSize : Byte) (h5 : 5 ≤ rxSize.toNat)
    (nRetries first : ℕ) (m : Memory Byte) :
    ∃ k, Stops port rxBuffer rxSize first nRetries k
      (receiveLoop port rxBuffer rxSize nRetries first m) := by
  induction nRetries generalizing first m with
  | zero =>
    rw [receiveLoop_final port rxBuffer rxSize (by omega)]
    exact ⟨0, lastPass_stops port rxBuffer rxSize first 0 m (fun h => absurd h (lt_irrefl 0))⟩
  | succ n ih =>
    by_cases hr : Repeated rxSize (port.shapReceiveResponse first)
    · rw [receiveLoop_again port rxBuffer rxSize h5 n first m hr]
      obtain ⟨k, hk⟩ := ih (first+1) (resetAndReceive m rxBuffer rxSize _)
      exact ⟨k+1, hk.later hr⟩
    · rw [receiveLoop_settles port rxBuffer rxSize h5 (n+1) first m hr]
      exact ⟨0, lastPass_stops port rxBuffer rxSize first (n+1) m (fun _ => hr)⟩

/-! ## When success is reported -/

theorem verdict_success (rxSize : Byte) (out : Outcome) (h4 : rxSize ≠ shaResponseSizeMin)
    (h : (verifyResponse (response out) 0 rxSize out.status).status = shaSuccess) :
    (CommError out ∧ out.status = shaSuccess) ∨ Verified (response out) 0 rxSize := by
  by_cases hr : Repeated rxSize out
  · obtain ⟨s, hne, hs⟩ := verdict_repeated rxSize out h4 hr
    rw [hs] at h
    exact absurd h hne
  · rcases verdict_settled rxSize out h4 hr with ⟨s, hne, hs⟩ | ⟨_, hcomm | ⟨_, hverified⟩⟩
    · rw [hs] at h
      exact absurd h hne
    · exact Or.inl hcomm
    · exact Or.inr hverified

theorem comm_not_repeated (rxSize : Byte) (out : Outcome) (hcomm : CommError out)
    (hstatus : out.status = shaSuccess) : ¬ Repeated rxSize out := by
  rintro ⟨_, ⟨hpacket, _⟩ | ⟨_, hne⟩⟩
  · exact hpacket hcomm.1
  · exact hne hstatus

theorem Stops.stops_at {port : Port} {rxBuffer : ℕ} {rxSize : Byte} {nRetries k j : ℕ}
    {ex : Exchange} (h : Stops port rxBuffer rxSize 0 nRetries k ex) (hj : j ≤ nRetries)
    (hearlier : ∀ i < j, Repeated rxSize (port.shapReceiveResponse i))
    (hsettled : ¬ Repeated rxSize (port.shapReceiveResponse j)) : k = j := by
  have hk := h.settled
  have hle := h.within
  have hbefore := h.earlier
  simp only [Nat.zero_add] at hk hbefore
  rcases lt_trichotomy k j with hlt | heq | hgt
  · exact absurd (hearlier k hlt) (hk (by omega))
  · exact heq
  · exact absurd (hbefore j hgt) hsettled

def CommandSent (port : Port) : Prop :=
  (port.shapSendCommand 0).status = shaSuccess ∨ (port.shapSendCommand 1).status = shaSuccess

/-- Among the responses the loop asks for, one is a communication error whose
receive call succeeded. -/
def CommErrorReached (port : Port) (rxSize : Byte) : Prop :=
  CommandSent port ∧ ∃ k ≤ shaRetryCount,
    (∀ j < k, Repeated rxSize (port.shapReceiveResponse j)) ∧
    CommError (port.shapReceiveResponse k) ∧ (port.shapReceiveResponse k).status = shaSuccess

theorem sendAndReceive_cases (port : Port) (params : ShaCommParameters) (m : Memory Byte)
    (txBuffer rxBuffer : ℕ) (htx : params.txBuffer = some txBuffer)
    (hrx : params.rxBuffer = some rxBuffer) (hcount : shaCommandSizeMin ≤ m txBuffer)
    (h5 : 5 ≤ params.rxSize.toNat) :
    (CommandSent port ∧ ∃ k, Stops port rxBuffer params.rxSize 0 shaRetryCount k
      (shacSendAndReceive port params m)) ∨
    (¬ CommandSent port ∧ (shacSendAndReceive port params m).status ≠ shaSuccess) := by
  have hmin : ¬ (m (txBuffer+shaBufferPosCount) < shaCommandSizeMin ∨
      params.rxSize < shaResponseSizeMin) := by
    rw [not_or, BitVec.not_lt, BitVec.not_lt, shaBufferPosCount, Nat.add_zero]
    constructor
    · exact hcount
    · rw [BitVec.le_def]
      exact le_trans (by decide) h5
  unfold shacSendAndReceive
  rw [htx, hrx]
  simp only [if_neg hmin]
  by_cases hfirst : (port.shapSendCommand 0).status = shaSuccess
  · simp only [hfirst, ne_eq, not_true_eq_false, if_false]
    exact Or.inl ⟨Or.inl hfirst, receiveLoop_stops port rxBuffer _ h5 _ _ _⟩
  · simp only [hfirst, ne_eq, not_false_eq_true, if_true]
    by_cases hsecond : (port.shapSendCommand 1).status = shaSuccess
    · simp only [hsecond, not_true_eq_false, if_false]
      exact Or.inl ⟨Or.inr hsecond, receiveLoop_stops port rxBuffer _ h5 _ _ _⟩
    · simp only [hsecond, not_false_eq_true, if_true]
      exact Or.inr ⟨fun h => h.elim hfirst hsecond, trivial⟩

/-- Success is reported only for a verified response, except when a
communication error packet that was received without error is reached. -/
theorem success_verified_iff (port : Port) (params : ShaCommParameters) (m : Memory Byte)
    (txBuffer rxBuffer : ℕ) (htx : params.txBuffer = some txBuffer)
    (hrx : params.rxBuffer = some rxBuffer) (hcount : shaCommandSizeMin ≤ m txBuffer)
    (h5 : 5 ≤ params.rxSize.toNat) :
    ((shacSendAndReceive port params m).status = shaSuccess →
      Verified (shacSendAndReceive port params m).memory rxBuffer params.rxSize) ↔
    ¬ CommErrorReached port params.rxSize := by
  constructor
  · rintro hverified ⟨hsent, j, hj, hearlier, hcomm, hstatus⟩
    rcases sendAndReceive_cases port params m txBuffer rxBuffer htx hrx hcount h5 with
      ⟨_, k, hk⟩ | ⟨hnot, _⟩
    · have hjk := hk.stops_at hj hearlier (comm_not_repeated _ _ hcomm hstatus)
      subst hjk
      have hpacket := verify_packet params.rxSize _ (size_not_min _ h5)
        (fun hl => hl.1 hstatus) hcomm.1
      have hsucc : (shacSendAndReceive port params m).status = shaSuccess := by
        have hs := hk.status
        rw [Nat.zero_add, hpacket, packet_comm _ _ hcomm.2] at hs
        exact hs.trans hstatus
      have hcountByte := hk.frame 0 (by omega)
      rw [Nat.zero_add] at hcountByte
      exact size_not_min _ h5 ((hverified hsucc).1.symm.trans (hcountByte.trans hcomm.1))
    · exact hnot hsent
  · intro hno hsucc
    rcases sendAndReceive_cases port params m txBuffer rxBuffer htx hrx hcount h5 with
      ⟨hsent, k, hk⟩ | ⟨_, hfail⟩
    · have hframe := hk.frame
      have hearlier := hk.earlier
      have hs := hk.status.symm.trans hsucc
      simp only [Nat.zero_add] at hframe hearlier hs
      rcases verdict_success params.rxSize _ (size_not_min _ h5) hs with hcomm | hverified
      · exact absurd ⟨hsent, k, hk.within, hearlier, hcomm⟩ hno
      · constructor
        · exact (hframe 0 (by omega)).trans hverified.1
        · rw [frameCheck_congr _ (response (port.shapReceiveResponse k)) _ 0 _ (by omega)
            (by simpa using hframe)]
          exact hverified.2
    · exact absurd hsucc hfail

def readParameters : ShaCommParameters := ⟨some 0, some 200, 7, 1000⟩

def readCommand : Memory Byte := store (fun _ => 0) 0 [7, 2, 1, 2, 0]

def commErrorPort : Port where
  shapSendCommand _ := ⟨shaSuccess, [0x77, 7, 2, 1, 2, 0]⟩
  shapReceiveResponse _ := ⟨shaSuccess, [0x04, 0xFF, 0x01, 0x42]⟩

theorem comm_error_reported :
    shaCommandSizeMin ≤ readCommand 0 ∧
    (shacSendAndReceive commErrorPort readParameters readCommand).status = shaSuccess ∧
    ¬ Verified (shacSendAndReceive commErrorPort readParameters readCommand).memory 200 7 := by
  have hunverified : ¬ Verified
      (shacSendAndReceive commErrorPort readParameters readCommand).memory 200 7 := by
    rintro ⟨hcount, _⟩
    revert hcount
    decide +kernel
  exact ⟨by decide, by decide +kernel, hunverified⟩

theorem success_verified_read :
    ((shacSendAndReceive commErrorPort readParameters readCommand).status = shaSuccess →
      Verified (shacSendAndReceive commErrorPort readParameters readCommand).memory 200 7) ↔
    ¬ CommErrorReached commErrorPort 7 :=
  success_verified_iff commErrorPort readParameters readCommand 0 200 rfl rfl (by decide)
    (by decide)

end Wingray.WhisperExchange
