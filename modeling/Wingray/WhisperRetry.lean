import Wingray.WhisperExchange

/-!
# The retry law of the receive loop

A corrupted response is asked for again, three times at most. What is reported
depends on the response at which the loop stops and on no earlier one.
-/

set_option autoImplicit false

namespace Wingray.WhisperRetry
open Wingray.CellMemory Wingray.WhisperCrc Wingray.WhisperExchange

/-- What a corrupted response is reported as when no retry is left. -/
def demanded (rxSize : Byte) (out : Outcome) : Status :=
  if response out shaBufferPosCount ≠ rxSize then shaBadSize else shaBadCrc

structure RetryLaw (port : Port) (rxBuffer : ℕ) (rxSize : Byte) (ex : Exchange) : Prop where
  recovered : ∀ k ≤ shaRetryCount, (∀ j < k, Corrupted rxSize (port.shapReceiveResponse j)) →
    Verified (response (port.shapReceiveResponse k)) 0 rxSize →
    ex.status = shaSuccess ∧ ex.receives = k+1 ∧
      ∀ i < rxSize.toNat, ex.memory (rxBuffer+i) = response (port.shapReceiveResponse k) i
  exhausted : (∀ j ≤ shaRetryCount, Corrupted rxSize (port.shapReceiveResponse j)) →
    ex.status = demanded rxSize (port.shapReceiveResponse shaRetryCount) ∧
      ex.receives = shaRetryCount+1

/-! ## One response -/

section Responses

variable {rxSize : Byte} {out : Outcome}

theorem corrupted_repeated (hs : out.status = shaSuccess) (h : Corrupted rxSize out) :
    Repeated rxSize out :=
  ⟨fun hl => hl.1 hs, .inl h⟩

theorem verified_not_packet (h5 : 5 ≤ rxSize.toNat) (h : Verified (response out) 0 rxSize) :
    ¬ StatusPacket out := by
  intro hp
  have hcount : response out shaBufferPosCount = rxSize := by simpa using h.1
  exact size_not_min rxSize h5 (hcount.symm.trans hp)

theorem verified_not_repeated (h5 : 5 ≤ rxSize.toNat) (h : Verified (response out) 0 rxSize) :
    ¬ Repeated rxSize out := by
  rintro ⟨_, hc | hc⟩
  · exact hc.2 h
  · exact verified_not_packet h5 h hc.1.1

theorem verified_status (h5 : 5 ≤ rxSize.toNat) (hs : out.status = shaSuccess)
    (h : Verified (response out) 0 rxSize) :
    (verifyResponse (response out) 0 rxSize out.status).status = shaSuccess := by
  obtain ⟨s, hv, hiff⟩ := verify_full rxSize out (fun hl => hl.1 hs) (verified_not_packet h5 h)
  rw [hv]
  exact hiff.mpr h

theorem corrupted_status (hs : out.status = shaSuccess) (h : Corrupted rxSize out) :
    (verifyResponse (response out) 0 rxSize out.status).status = demanded rxSize out := by
  obtain ⟨hpacket, hverified⟩ := h
  have hlost : ¬ (out.status ≠ shaSuccess ∧ response out (0+shaBufferPosCount) = 0) :=
    fun hl => hl.1 hs
  have hfull : ¬ (rxSize ≠ shaResponseSizeMin ∧
      response out (0+shaBufferPosCount) = shaResponseSizeMin) := fun hp => hpacket hp.2
  rw [verifyResponse, if_neg hlost, if_neg hfull, demanded]
  simp only [Nat.zero_add]
  by_cases hcount : response out shaBufferPosCount = rxSize
  · have hcrc : ¬ frameCheck (response out) 0 rxSize = true :=
      fun hc => hverified ⟨hcount, hc⟩
    rw [if_neg (not_not.mpr hcount), if_neg hcrc, if_neg (not_not.mpr hcount)]
    rfl
  · rw [if_pos hcount, if_pos hcount]
    rfl

end Responses

/-! ## The number of receives -/

theorem receiveLoop_receives (port : Port) (rxBuffer : ℕ) (rxSize : Byte) (nRetries call : ℕ)
    (m : Memory Byte) :
    (receiveLoop port rxBuffer rxSize nRetries call m).receives ≤ call+nRetries+1 := by
  induction nRetries generalizing call m with
  | zero =>
    rw [receiveLoop]
    dsimp only
    split <;> exact le_rfl
  | succ n ih =>
    rw [receiveLoop]
    dsimp only
    split
    · exact Nat.succ_le_succ (Nat.le_add_right _ _)
    · split_ifs
      · have hrest := ih (call+1) (resetAndReceive m rxBuffer rxSize (port.shapReceiveResponse call))
        omega
      · exact Nat.succ_le_succ (Nat.le_add_right _ _)

theorem sendAndReceive_receives (port : Port) (params : ShaCommParameters) (m : Memory Byte) :
    (shacSendAndReceive port params m).receives ≤ shaRetryCount+1 := by
  have hloop : ∀ rxBuffer m,
      (receiveLoop port rxBuffer params.rxSize shaRetryCount 0 m).receives ≤ shaRetryCount+1 := by
    intro rxBuffer m
    have h := receiveLoop_receives port rxBuffer params.rxSize shaRetryCount 0 m
    rwa [Nat.zero_add] at h
  simp only [shacSendAndReceive]
  split
  · split_ifs
    · exact Nat.zero_le _
    · exact Nat.zero_le _
    · exact hloop _ _
    · exact hloop _ _
  · exact Nat.zero_le _

/-! ## The law -/

theorem stops_retryLaw {port : Port} {rxBuffer k : ℕ} {rxSize : Byte} {ex : Exchange}
    (h5 : 5 ≤ rxSize.toNat) (hs : ∀ j, (port.shapReceiveResponse j).status = shaSuccess)
    (h : Stops port rxBuffer rxSize 0 shaRetryCount k ex) :
    RetryLaw port rxBuffer rxSize ex := by
  constructor
  case recovered =>
    intro j hj hearlier hverified
    obtain rfl := h.stops_at hj (fun i hi => corrupted_repeated (hs i) (hearlier i hi))
      (verified_not_repeated h5 hverified)
    have hstatus := h.status
    have hreceives := h.receives
    have hframe := h.frame
    simp only [Nat.zero_add] at hstatus hreceives hframe
    exact ⟨hstatus.trans (verified_status h5 (hs k) hverified), hreceives, hframe⟩
  case exhausted =>
    intro hall
    have hk : k = shaRetryCount := by
      by_contra hne
      have hlt := lt_of_le_of_ne h.within hne
      have hsettled := h.settled hlt
      rw [Nat.zero_add] at hsettled
      exact hsettled (corrupted_repeated (hs k) (hall k h.within))
    subst hk
    have hstatus := h.status
    have hreceives := h.receives
    simp only [Nat.zero_add] at hstatus hreceives
    exact ⟨hstatus.trans (corrupted_status (hs _) (hall _ le_rfl)), hreceives⟩

/-- There are at most four receives, and with no failing send or receive the
first valid response is returned, or the complaint about the fourth. -/
theorem retry_law (port : Port) (params : ShaCommParameters) (m : Memory Byte) :
    (shacSendAndReceive port params m).receives ≤ shaRetryCount+1 ∧
    ∀ txBuffer rxBuffer, params.txBuffer = some txBuffer → params.rxBuffer = some rxBuffer →
      shaCommandSizeMin ≤ m txBuffer → 5 ≤ params.rxSize.toNat → CommandSent port →
      (∀ j, (port.shapReceiveResponse j).status = shaSuccess) →
      RetryLaw port rxBuffer params.rxSize (shacSendAndReceive port params m) := by
  constructor
  · exact sendAndReceive_receives port params m
  · intro txBuffer rxBuffer htx hrx hcount h5 hsent hs
    rcases sendAndReceive_cases port params m txBuffer rxBuffer htx hrx hcount h5 with
      ⟨_, k, hk⟩ | ⟨hnot, _⟩
    · exact stops_retryLaw h5 hs hk
    · exact absurd hsent hnot

def garbledPort : Port where
  shapSendCommand _ := ⟨shaSuccess, [0x77, 7, 2, 1, 2, 0]⟩
  shapReceiveResponse k := ⟨shaSuccess, [7, 1, 2, 3, 4, if k < 2 then 0 else 0xF3, 0x28]⟩

theorem retry_law_garbled :
    (shacSendAndReceive garbledPort readParameters readCommand).status = shaSuccess ∧
    (shacSendAndReceive garbledPort readParameters readCommand).receives = 3 := by
  have hlaw := (retry_law garbledPort readParameters readCommand).2 0 200 rfl rfl (by decide)
    (by decide) (.inl rfl) (fun _ => rfl)
  have hcorrupted : ∀ j < 2, Corrupted 7 (garbledPort.shapReceiveResponse j) := by
    intro j hj
    have hbad : ¬ frameCheck (response ⟨shaSuccess, [7, 1, 2, 3, 4, 0, 0x28]⟩) 0 7 = true := by
      decide +kernel
    have hout : garbledPort.shapReceiveResponse j = ⟨shaSuccess, [7, 1, 2, 3, 4, 0, 0x28]⟩ := by
      simp only [garbledPort, if_pos hj]
    rw [hout]
    exact ⟨by simp only [StatusPacket]; decide, fun hv => hbad hv.2⟩
  have hverified : Verified (response (garbledPort.shapReceiveResponse 2)) 0 7 :=
    ⟨rfl, by decide +kernel⟩
  obtain ⟨hstatus, hreceives, _⟩ := hlaw.recovered 2 (by decide) hcorrupted hverified
  exact ⟨hstatus, hreceives⟩

end Wingray.WhisperRetry
