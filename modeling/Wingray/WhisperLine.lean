import Wingray.WhisperRetry
import Wingray.WhisperSend

/-!
# An exchange over the serial line

The exchange with the driver calls it makes, all on one memory. A receive that brings
nothing is a failure and every other one a success, and only a whole response reaches
the buffer. So the exchange is the one over a port that answers what the line brought.
-/

set_option autoImplicit false

namespace Wingray.WhisperLine
open Wingray.CellMemory Wingray.WhisperCrc Wingray.WhisperExchange Wingray.WhisperSerial
open Wingray.WhisperRaw Wingray.WhisperReceive Wingray.WhisperSend Wingray.WhisperRetry

structure Turn where
  writes : List Write
  passes : List Pass

/-- No answer of the kernel is missing in a call that reads so many raw bytes. -/
structure Turn.Answered (turn : Turn) (readLen : ℕ) : Prop where
  written : writeRetried turn.writes ≠ none
  read : Finishes readLen turn.passes

def Outside (a n k : ℕ) : Prop := k < a ∨ a+n ≤ k

def sendbufSize : ℕ := 128
def receivebufSize : ℕ := 128
def inStrSize : ℕ := 41

structure Statics where
  readwriteBuf : ℕ
  transmitStr : ℕ
  inStr : ℕ
  sendbuf : ℕ
  receicebuf : ℕ
  transmit_apart : Apart readwriteBuf transmitStr 1
  inStr_apart : Apart readwriteBuf inStr inStrSize
  sendbuf_apart : Apart readwriteBuf sendbuf sendbufSize
  receicebuf_apart : Apart readwriteBuf receicebuf receivebufSize

def shapSendCommand (S : Statics) (count : Byte) (buffer : ℕ) (turn : Turn) (m : Memory Byte) :
    Option Sent :=
  shapSendBytes S.readwriteBuf count (some buffer) turn.writes turn.passes m

def shapReceiveResponse (S : Statics) (count : Byte) (buffer : ℕ) (turn : Turn)
    (m : Memory Byte) : Option Received :=
  shapReceiveBytes S.readwriteBuf S.transmitStr count (some buffer) turn.writes turn.passes m

/-- The receive loop; it stops short where the kernel has not answered yet. -/
def receiveLoop (S : Statics) (rxBuffer : ℕ) (rxSize : Byte) :
    ℕ → ℕ → List Turn → Memory Byte → Option Exchange
  | _, _, [], _ => none
  | nRetries, call, turn::turns, m =>
    match shapReceiveResponse S rxSize rxBuffer turn
      (store m rxBuffer (List.replicate rxSize.toNat 0)) with
    | none => none
    | some r =>
      match verifyResponse r.memory rxBuffer rxSize r.status with
      | .finished status => some ⟨status, r.memory, call+1⟩
      | .condition status =>
        match nRetries with
        | 0 => some ⟨status, r.memory, call+1⟩
        | nRetries+1 =>
          if status ≠ shaSuccess then receiveLoop S rxBuffer rxSize nRetries (call+1) turns r.memory
          else some ⟨status, r.memory, call+1⟩

structure Report where
  exchange : Exchange
  sent : List Sent

def withCheck (txBuffer : ℕ) (m : Memory Byte) : Memory Byte :=
  let countMinusCrc := m (txBuffer+shaBufferPosCount)-2
  storeWord m (txBuffer+countMinusCrc.toNat) (shacCalculateCrc m txBuffer countMinusCrc)

def shacSendAndReceive (S : Statics) (params : ShaCommParameters) (turns : List Turn)
    (m : Memory Byte) : Option Report :=
  match params.txBuffer, params.rxBuffer with
  | some txBuffer, some rxBuffer =>
    let count := m (txBuffer+shaBufferPosCount)
    if count < shaCommandSizeMin ∨ params.rxSize < shaResponseSizeMin then
      some ⟨⟨shaBadParam, m, 0⟩, []⟩
    else
      match turns with
      | [] => none
      | turn::turns => do
        let first ← shapSendCommand S count txBuffer turn (withCheck txBuffer m)
        if first.status ≠ shaSuccess then
          match turns with
          | [] => none
          | turn::turns =>
            let second ← shapSendCommand S count txBuffer turn first.memory
            if second.status ≠ shaSuccess then
              return ⟨⟨second.status, second.memory, 0⟩, [first, second]⟩
            let ex ← receiveLoop S rxBuffer params.rxSize shaRetryCount 0 turns second.memory
            return ⟨ex, [first, second]⟩
        let ex ← receiveLoop S rxBuffer params.rxSize shaRetryCount 0 turns first.memory
        return ⟨ex, [first]⟩
  | _, _ => some ⟨⟨shaBadParam, m, 0⟩, []⟩

/-- What a receive comes to: its status, and the response if all of it arrived. -/
def answer (rxSize : Byte) (passes : List Pass) : Outcome where
  status := if (arrived rxSize passes).length = 0 then shaCommFail else shaSuccess
  bytes := if rawLength rxSize ≤ (arrived rxSize passes).length then
    decode ((arrived rxSize passes).drop 8) rxSize.toNat else []

section Exchange

variable {S : Statics} {rxBuffer : ℕ} {rxSize : Byte} {turn : Turn} {turns : List Turn}
  {m m' : Memory Byte} {ex : Exchange} {params : ShaCommParameters}

/-! ## One receive -/

theorem write_frame {readwriteBuf data : ℕ} {writes : List Write} {w : Written}
    (hw : writeToDevice readwriteBuf data 1 writes m = some w)
    (hdata : Apart readwriteBuf data 1) (k : ℕ) (hk : Outside readwriteBuf maxBufLen k) :
    w.memory k = m k := by
  simp only [Apart, Outside] at hdata hk
  have hone : (1 : Byte).toNat = 1 := rfl
  rcases writeToDevice_cases (by rw [hone]; omega) hw with
    ⟨_, hmemory, _⟩ | ⟨hsmall, hmemory, _⟩
  · rw [hmemory]
  · rw [hmemory]
    apply store_outside
    rw [encoding_length, slice_length, hone]
    rw [maxBufLen] at hk
    omega

theorem taken_marks {readwriteBuf data : ℕ} {len : Byte} {writes : List Write} {w : Written}
    (hdata : ∀ i < len.toNat, data+i < readwriteBuf ∨ readwriteBuf+maxBufLen ≤ data+i)
    (h : writeToDevice readwriteBuf data len writes m = some w) :
    ∀ b ∈ w.taken, marks b = true := by
  intro b hb
  rcases writeToDevice_cases hdata h with ⟨-, -, -, htaken⟩ | ⟨-, -, -, htaken⟩
  · rw [htaken] at hb
    exact absurd hb List.not_mem_nil
  · rw [htaken, takenOf] at hb
    split at hb
    · exact encoding_marks _ b (List.mem_of_mem_take hb)
    · exact absurd hb List.not_mem_nil

/-- A receive into a cleared buffer leaves the response there, or nothing. -/
theorem receive_answers {t : Received} (h1 : 1 ≤ rxSize.toNat) (h62 : rxSize.toNat ≤ 62)
    (hapart : Apart S.readwriteBuf rxBuffer rxSize.toNat) (hfits : FitsBuffer rxSize turn.passes)
    (h : shapReceiveResponse S rxSize rxBuffer turn
      (store m rxBuffer (List.replicate rxSize.toNat 0)) = some t) :
    t.status = (answer rxSize turn.passes).status ∧
      ∀ i < rxSize.toNat, t.memory (rxBuffer+i) = response (answer rxSize turn.passes) i := by
  obtain ⟨w, r, hw, hr, ht⟩ := receiveBytes_inv h1 h
  have hsize := arrived_length rxSize turn.passes
  by_cases henough : rawLength rxSize ≤ (arrived rxSize turn.passes).length
  · obtain ⟨t', ht', hsuccess, hdecoded⟩ := receive_whole h1 h62 hapart hfits hw henough
    obtain rfl := Option.some.inj (ht'.symm.trans h)
    have hpos : (arrived rxSize turn.passes).length ≠ 0 := by
      have : 0 < rawLength rxSize := rawLength_pos
      omega
    constructor
    · rw [hsuccess, answer, if_neg hpos]
    · intro i hi
      have hbyte := congrArg (fun bytes => bytes.getD i 0) hdecoded
      simp only [answer, response, if_pos henough, ← hbyte]
      simp [List.getD, hi]
  · have hlen := readLen_toNat h62
    obtain ⟨hstatus, hmemory⟩ := readFromDevice_short (readLen_pos h62)
      (by rw [hlen]; exact fits_room hfits) (by rw [hlen, ← hsize]; omega) hr
    rw [hlen, ← hsize] at hstatus
    subst ht
    constructor
    · show (if r.status = shaCommFail then shaCommFail else shaSuccess) = _
      rw [hstatus, answer]
      by_cases hzero : (arrived rxSize turn.passes).length = 0
      · rw [if_pos hzero, if_pos rfl]
      · rw [if_neg hzero, if_neg (by decide)]
    · intro i hi
      have hcell : Outside S.readwriteBuf maxBufLen (rxBuffer+i) := by
        simp only [Apart, Outside] at hapart ⊢
        omega
      show r.memory (rxBuffer+i) = _
      rw [hmemory, filled_frame _ _ hcell, write_frame hw S.transmit_apart _ hcell,
        store_inside _ _ _ i (by rwa [List.length_replicate]), List.getElem_replicate]
      · simp [answer, response, if_neg henough]
      · simp only [FitsBuffer] at hfits
        simp only [Outside] at hcell
        rw [hlen]
        omega

/-! ## The exchange over a port -/

theorem verifyResponse_congr (h2 : 2 ≤ rxSize.toNat) {a a' : ℕ} (status : Status)
    (h : ∀ i < rxSize.toNat, m (a+i) = m' (a'+i)) :
    verifyResponse m a rxSize status = verifyResponse m' a' rxSize status := by
  simp only [verifyResponse, shaBufferPosCount, shaBufferPosStatus, h 0 (by omega),
    h 1 (by omega), frameCheck_congr m m' a a' rxSize h2 h]
  rfl

/-- Two exchanges end alike: as far as the response goes. -/
structure Agrees (rxBuffer : ℕ) (rxSize : Byte) (ex ex' : Exchange) : Prop where
  status : ex.status = ex'.status
  receives : ex.receives = ex'.receives
  response : ∀ i < rxSize.toNat, ex.memory (rxBuffer+i) = ex'.memory (rxBuffer+i)

/-- The port that sends everything and answers what the line brings. -/
def linePort (rxSize : Byte) (turns : List Turn) : Port where
  shapSendCommand _ := ⟨shaSuccess, []⟩
  shapReceiveResponse k := answer rxSize ((turns[k]?).elim [] Turn.passes)

theorem receiveLoop_agrees {port : Port} {nRetries call : ℕ} (h2 : 2 ≤ rxSize.toNat)
    (h62 : rxSize.toNat ≤ 62) (hapart : Apart S.readwriteBuf rxBuffer rxSize.toNat)
    (hfits : ∀ turn ∈ turns, FitsBuffer rxSize turn.passes)
    (hport : ∀ k turn, turns[k]? = some turn →
      port.shapReceiveResponse (call+k) = answer rxSize turn.passes)
    (h : receiveLoop S rxBuffer rxSize nRetries call turns m = some ex) (m' : Memory Byte) :
    Agrees rxBuffer rxSize ex
      (WhisperExchange.receiveLoop port rxBuffer rxSize nRetries call m') := by
  induction turns generalizing nRetries call m m' with
  | nil => simp [receiveLoop] at h
  | cons turn turns ih =>
    have hanswer : port.shapReceiveResponse call = answer rxSize turn.passes := hport 0 turn rfl
    rw [receiveLoop] at h
    cases hr : shapReceiveResponse S rxSize rxBuffer turn
        (store m rxBuffer (List.replicate rxSize.toNat 0)) with
    | none =>
      rw [hr] at h
      cases h
    | some r =>
      obtain ⟨hstatus, hcells⟩ := receive_answers (by omega) h62 hapart
        (hfits turn List.mem_cons_self) hr
      have hreset := reset_receive_at m' rxBuffer rxSize (answer rxSize turn.passes)
      have hsame : ∀ i < rxSize.toNat, r.memory (rxBuffer+i) =
          resetAndReceive m' rxBuffer rxSize (answer rxSize turn.passes) (rxBuffer+i) :=
        fun i hi => (hcells i hi).trans (hreset i hi).symm
      have hverdict := verifyResponse_congr h2 r.status hsame
      rw [hstatus] at hverdict
      simp only [hr, hstatus, hverdict] at h
      rw [WhisperExchange.receiveLoop]
      simp only [hanswer]
      cases hv : verifyResponse (resetAndReceive m' rxBuffer rxSize (answer rxSize turn.passes))
          rxBuffer rxSize (answer rxSize turn.passes).status with
      | finished status =>
        simp only [hv, Option.some.injEq] at h
        subst h
        exact ⟨rfl, rfl, hsame⟩
      | condition status =>
        cases nRetries with
        | zero =>
          simp only [hv, Option.some.injEq] at h
          subst h
          exact ⟨rfl, rfl, hsame⟩
        | succ nRetries =>
          simp only [hv] at h ⊢
          split_ifs at h ⊢ with hne
          · refine ih (fun t ht => hfits t (List.mem_cons_of_mem turn ht)) ?_ h _
            intro k t ht
            rw [Nat.add_assoc, Nat.add_comm 1 k]
            exact hport (k+1) t ht
          · obtain rfl := Option.some.inj h
            exact ⟨rfl, rfl, hsame⟩

theorem receiveLoop_returns {nRetries call : ℕ} (h1 : 1 ≤ rxSize.toNat) (h62 : rxSize.toNat ≤ 62)
    (hlength : nRetries < turns.length) (h : ∀ turn ∈ turns, turn.Answered (rawLength rxSize)) :
    ∃ ex, receiveLoop S rxBuffer rxSize nRetries call turns m = some ex := by
  induction turns generalizing nRetries call m with
  | nil => exact absurd hlength (Nat.not_lt_zero _)
  | cons turn turns ih =>
    have hturn := h turn List.mem_cons_self
    obtain ⟨r, hr⟩ : ∃ r, shapReceiveResponse S rxSize rxBuffer turn
        (store m rxBuffer (List.replicate rxSize.toNat 0)) = some r :=
      receive_returns h1 h62 hturn.written hturn.read
    rw [receiveLoop, hr]
    dsimp only
    cases verifyResponse r.memory rxBuffer rxSize r.status with
    | finished status => exact ⟨_, rfl⟩
    | condition status =>
      cases nRetries with
      | zero => exact ⟨_, rfl⟩
      | succ nRetries =>
        dsimp only
        split_ifs
        · exact ih (Nat.lt_of_succ_lt_succ hlength)
            (fun turn ht => h turn (List.mem_cons_of_mem _ ht))
        · exact ⟨_, rfl⟩

theorem send_status {count : Byte} {buffer : ℕ} {t : Sent} (h1 : 1 ≤ count.toNat)
    (h : shapSendCommand S count buffer turn m = some t) : t.status = shaSuccess := by
  obtain ⟨w, r, -, -, rfl⟩ := sendBytes_inv h1 h
  rfl

section Call

variable {txBuffer : ℕ} {report : Report}

theorem sizes_permitted (hcount : shaCommandSizeMin ≤ m txBuffer)
    (h4 : shaResponseSizeMin ≤ params.rxSize) :
    ¬ (m (txBuffer+shaBufferPosCount) < shaCommandSizeMin ∨
      params.rxSize < shaResponseSizeMin) := by
  rw [not_or, BitVec.not_lt, BitVec.not_lt]
  exact ⟨hcount, h4⟩

/-- A send of the driver never fails, so the command is sent once. -/
theorem exchange_inv (htx : params.txBuffer = some txBuffer)
    (hrx : params.rxBuffer = some rxBuffer) (hcount : shaCommandSizeMin ≤ m txBuffer)
    (h4 : shaResponseSizeMin ≤ params.rxSize)
    (h : shacSendAndReceive S params turns m = some report) :
    ∃ turn rest first ex, turns = turn::rest ∧
      shapSendCommand S (m txBuffer) txBuffer turn (withCheck txBuffer m) = some first ∧
      receiveLoop S rxBuffer params.rxSize shaRetryCount 0 rest first.memory = some ex ∧
      report = ⟨ex, [first]⟩ := by
  have hmin := sizes_permitted hcount h4
  have h1 : 1 ≤ (m txBuffer).toNat := by
    rw [BitVec.le_def] at hcount
    exact le_trans (by decide) hcount
  rw [shacSendAndReceive, htx, hrx] at h
  simp only [if_neg hmin] at h
  cases turns with
  | nil => cases h
  | cons turn rest =>
    obtain ⟨first, hfirst, h⟩ := Option.bind_eq_some_iff.mp h
    rw [if_neg (not_not.mpr (send_status h1 hfirst))] at h
    obtain ⟨ex, hex, h⟩ := Option.bind_eq_some_iff.mp h
    exact ⟨turn, rest, first, ex, rfl, hfirst, hex, (Option.some.inj h).symm⟩

/-- An exchange returns once its send and as many receives as it may make are answered. -/
theorem exchange_returns (htx : params.txBuffer = some txBuffer)
    (hrx : params.rxBuffer = some rxBuffer) (hcount : shaCommandSizeMin ≤ m txBuffer)
    (h4 : shaResponseSizeMin ≤ params.rxSize) (h62 : params.rxSize.toNat ≤ 62)
    (hsend : turn.Answered (rawLength (m txBuffer))) (hlength : shaRetryCount < turns.length)
    (h : ∀ turn ∈ turns, turn.Answered (rawLength params.rxSize)) :
    ∃ report, shacSendAndReceive S params (turn::turns) m = some report := by
  have hmin := sizes_permitted hcount h4
  rw [BitVec.le_def] at hcount h4
  have h1 : 1 ≤ (m txBuffer).toNat := le_trans (by decide) hcount
  obtain ⟨first, hfirst⟩ : ∃ first, shapSendCommand S (m txBuffer) txBuffer turn
      (withCheck txBuffer m) = some first := send_returns h1 hsend.written hsend.read
  obtain ⟨ex, hex⟩ : ∃ ex, receiveLoop S rxBuffer params.rxSize shaRetryCount 0 turns
      first.memory = some ex := receiveLoop_returns (le_trans (by decide) h4) h62 hlength h
  refine ⟨⟨ex, [first]⟩, ?_⟩
  rw [shacSendAndReceive, htx, hrx]
  simp only [if_neg hmin]
  refine Option.bind_eq_some_iff.mpr ⟨first, hfirst, ?_⟩
  rw [if_neg (not_not.mpr (send_status h1 hfirst))]
  exact Option.bind_eq_some_iff.mpr ⟨ex, hex, rfl⟩

variable (htx : params.txBuffer = some txBuffer) (hrx : params.rxBuffer = some rxBuffer)
  (hcount : shaCommandSizeMin ≤ m txBuffer) (h5 : 5 ≤ params.rxSize.toNat)
  (h62 : params.rxSize.toNat ≤ 62) (hapart : Apart S.readwriteBuf rxBuffer params.rxSize.toNat)
  (hfits : ∀ turn ∈ turns.tail, FitsBuffer params.rxSize turn.passes)
  (h : shacSendAndReceive S params turns m = some report)
include htx hrx hcount h5 h62 hapart hfits h

/-- The exchange over the line is the one over the port that answers what it brings. -/
theorem exchange_refines : Agrees rxBuffer params.rxSize report.exchange
    (WhisperExchange.shacSendAndReceive (linePort params.rxSize turns.tail) params m) := by
  have h4 : shaResponseSizeMin ≤ params.rxSize := by
    rw [BitVec.le_def]
    exact le_trans (by decide) h5
  have hmin := sizes_permitted hcount h4
  obtain ⟨turn, rest, first, ex, rfl, -, hex, rfl⟩ := exchange_inv htx hrx hcount h4 h
  rw [WhisperExchange.shacSendAndReceive, htx, hrx]
  simp only [if_neg hmin]
  refine receiveLoop_agrees (by omega) h62 hapart hfits ?_ hex _
  intro k turn ht
  rw [List.tail_cons] at ht
  simp only [linePort, Nat.zero_add, List.tail_cons, ht, Option.elim_some]

end Call

/-! ## What is accepted -/

def heard (rxSize : Byte) (turns : List Turn) (k : ℕ) : List Byte :=
  arrived rxSize ((turns[k]?).elim [] Turn.passes)

def reply (rxSize : Byte) (turns : List Turn) (k : ℕ) : Outcome :=
  (linePort rxSize turns).shapReceiveResponse k

/-- Something came, but no response that can be verified and no status packet. -/
def Garbled (rxSize : Byte) (turns : List Turn) (k : ℕ) : Prop :=
  heard rxSize turns k ≠ [] ∧ Corrupted rxSize (reply rxSize turns k)

structure Accepted (rxSize : Byte) (turns : List Turn) (k : ℕ) : Prop where
  within : k ≤ shaRetryCount
  garbled : ∀ j < k, Garbled rxSize turns j
  accepted : Verified (response (reply rxSize turns k)) 0 rxSize ∨ CommError (reply rxSize turns k)

variable {k : ℕ}

theorem reply_silent (h : heard rxSize turns k = []) : reply rxSize turns k = ⟨shaCommFail, []⟩ := by
  have hpos : 0 < rawLength rxSize := rawLength_pos
  rw [heard] at h
  simp only [reply, linePort, answer, h, List.length_nil, if_true]
  rw [if_neg (by omega)]

theorem reply_status (h : heard rxSize turns k ≠ []) :
    (reply rxSize turns k).status = shaSuccess :=
  if_neg (mt List.length_eq_zero_iff.mp h)

theorem reply_whole (h : response (reply rxSize turns k) 0 ≠ 0) :
    rawLength rxSize ≤ (heard rxSize turns k).length ∧
      (reply rxSize turns k).bytes = decode ((heard rxSize turns k).drop 8) rxSize.toNat := by
  by_cases henough : rawLength rxSize ≤ (heard rxSize turns k).length
  · exact ⟨henough, if_pos henough⟩
  · have hbytes : (reply rxSize turns k).bytes = [] := if_neg henough
    simp [response, hbytes] at h

theorem repeated_iff : Repeated rxSize (reply rxSize turns k) ↔ Garbled rxSize turns k := by
  by_cases hsilent : heard rxSize turns k = []
  · have hreply := reply_silent hsilent
    constructor
    · rintro ⟨hlost, -⟩
      refine absurd ?_ hlost
      rw [Lost, hreply]
      exact ⟨by decide, rfl⟩
    · exact fun h => absurd hsilent h.1
  · have hstatus := reply_status hsilent
    constructor
    · rintro ⟨-, hc | hc⟩
      · exact ⟨hsilent, hc⟩
      · exact absurd hstatus hc.2
    · exact fun h => corrupted_repeated hstatus h.2

theorem Accepted.not_silent (h5 : 5 ≤ rxSize.toNat) (h : Accepted rxSize turns k) :
    response (reply rxSize turns k) 0 ≠ 0 := by
  intro hzero
  rcases h.accepted with hv | hc
  · have hcount : rxSize = 0 := hv.1.symm.trans hzero
    rw [hcount] at h5
    exact absurd h5 (by decide)
  · exact absurd (hc.1.symm.trans hzero) (by decide)

theorem Accepted.status (h5 : 5 ≤ rxSize.toNat) (h : Accepted rxSize turns k) :
    (reply rxSize turns k).status = shaSuccess := by
  have hwhole := (reply_whole (h.not_silent h5)).1
  have hpos : 0 < rawLength rxSize := rawLength_pos
  apply reply_status
  intro hnil
  rw [hnil, List.length_nil] at hwhole
  omega

theorem Accepted.settled (h5 : 5 ≤ rxSize.toNat) (h : Accepted rxSize turns k) :
    ¬ Repeated rxSize (reply rxSize turns k) := by
  rcases h.accepted with hv | hc
  · exact verified_not_repeated h5 hv
  · exact comm_not_repeated rxSize _ hc (h.status h5)

theorem Accepted.verdict (h5 : 5 ≤ rxSize.toNat) (h : Accepted rxSize turns k) :
    (verifyResponse (response (reply rxSize turns k)) 0 rxSize
      (reply rxSize turns k).status).status = shaSuccess := by
  have hstatus := h.status h5
  rcases h.accepted with hv | hc
  · exact verified_status h5 hstatus hv
  · rw [verify_packet rxSize _ (size_not_min rxSize h5) (fun hl => hl.1 hstatus) hc.1,
      packet_comm _ _ hc.2]
    exact hstatus

/-- A success, with the response of receive `k` as it was decoded. -/
structure Returned (rxBuffer : ℕ) (rxSize : Byte) (turns : List Turn) (k : ℕ) (ex : Exchange) :
    Prop where
  status : ex.status = shaSuccess
  receives : ex.receives = k+1
  whole : rawLength rxSize ≤ (heard rxSize turns k).length
  bytes : slice ex.memory rxBuffer rxSize.toNat =
    decode ((heard rxSize turns k).drop 8) rxSize.toNat

theorem slice_response (h : ∀ i < rxSize.toNat, m (rxBuffer+i) = response (reply rxSize turns k) i)
    (hbytes : (reply rxSize turns k).bytes = decode ((heard rxSize turns k).drop 8) rxSize.toNat) :
    slice m rxBuffer rxSize.toNat = decode ((heard rxSize turns k).drop 8) rxSize.toNat := by
  apply List.ext_getElem
  · simp [decode]
  · intro i hi hi'
    rw [slice_length] at hi
    rw [slice_getElem, h i hi, response, hbytes, List.getD, List.getElem?_eq_getElem hi']
    rfl

theorem line_accepts {txBuffer : ℕ} {report : Report} (htx : params.txBuffer = some txBuffer)
    (hrx : params.rxBuffer = some rxBuffer) (hcount : shaCommandSizeMin ≤ m txBuffer)
    (h5 : 5 ≤ params.rxSize.toNat) (h62 : params.rxSize.toNat ≤ 62)
    (hapart : Apart S.readwriteBuf rxBuffer params.rxSize.toNat)
    (hfits : ∀ turn ∈ turns.tail, FitsBuffer params.rxSize turn.passes)
    (h : shacSendAndReceive S params turns m = some report) :
    (report.exchange.status = shaSuccess → ∃ k, Accepted params.rxSize turns.tail k) ∧
      ∀ k, Accepted params.rxSize turns.tail k →
        Returned rxBuffer params.rxSize turns.tail k report.exchange := by
  have hagree := exchange_refines htx hrx hcount h5 h62 hapart hfits h
  rcases sendAndReceive_cases (linePort params.rxSize turns.tail) params m txBuffer rxBuffer htx
    hrx hcount h5 with ⟨-, k, hk⟩ | ⟨hnot, -⟩
  · have hearlier := hk.earlier
    have hstatus := hagree.status.trans hk.status
    have hreceives := hagree.receives.trans hk.receives
    have hframe := fun i hi => (hagree.response i hi).trans (hk.frame i hi)
    simp only [Nat.zero_add] at hearlier hstatus hreceives hframe
    constructor
    · intro hsuccess
      refine ⟨k, hk.within, fun j hj => repeated_iff.mp (hearlier j hj), ?_⟩
      exact (verdict_success params.rxSize _ (size_not_min _ h5)
        (hstatus.symm.trans hsuccess)).symm.imp id And.left
    · intro j hj
      obtain rfl := hk.stops_at hj.within (fun i hi => repeated_iff.mpr (hj.garbled i hi))
        (hj.settled h5)
      obtain ⟨hwhole, hbytes⟩ := reply_whole (hj.not_silent h5)
      exact ⟨hstatus.trans (hj.verdict h5), hreceives, hwhole, slice_response hframe hbytes⟩
  · exact absurd (.inl rfl) hnot

end Exchange

def statics : Statics where
  readwriteBuf := 0
  transmitStr := 600
  inStr := 700
  sendbuf := 1000
  receicebuf := 1200
  transmit_apart := .inr (by decide)
  inStr_apart := .inr (by decide)
  sendbuf_apart := .inr (by decide)
  receicebuf_apart := .inr (by decide)

def chipBits (b : Byte) : List Byte :=
  (List.range 8).map (fun j => if b.getLsbD j then mOneBit else 0)

end Wingray.WhisperLine
