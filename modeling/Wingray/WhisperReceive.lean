import Wingray.WhisperRaw

/-!
# Receiving a response

`SHAP_ReceiveBytes` sends the transmit token and reads its echo and the response
as raw bytes. A timeout in the middle of them ends the call before they are
decoded.
-/

set_option autoImplicit false

namespace Wingray.WhisperReceive
open Wingray.CellMemory Wingray.WhisperCrc Wingray.WhisperExchange Wingray.WhisperSerial
open Wingray.WhisperRaw

structure Received where
  status : Status
  memory : Memory Byte

/-- The statics of the driver are its transfer buffer and the transmit token;
the token is sent whatever becomes of the write. -/
def shapReceiveBytes (readwriteBuf pTrm : ℕ) (recCommLen : Byte) (dataBuf : Option ℕ)
    (writes : List Write) (passes : List Pass) (m : Memory Byte) : Option Received :=
  match dataBuf with
  | none => some ⟨shaBadParam, m⟩
  | some dataBuf =>
    if recCommLen = 0 then some ⟨shaBadParam, m⟩
    else
      match writeToDevice readwriteBuf pTrm 1 writes m with
      | none => none
      | some w =>
        (readFromDevice readwriteBuf dataBuf (BitVec.ofInt 16 ((recCommLen.toInt+1)*8)) 8 passes
            w.memory).map
          (fun t => ⟨if t.status = shaCommFail then shaCommFail else shaSuccess, t.memory⟩)

/-- The raw bytes of a response of the given length, its echo included. -/
def rawLength (recCommLen : Byte) : ℕ := 8*(recCommLen.toNat+1)

def arrived (recCommLen : Byte) (passes : List Pass) : List Byte :=
  received (rawLength recCommLen) 0 passes

def FitsBuffer (recCommLen : Byte) (passes : List Pass) : Prop :=
  delivered (rawLength recCommLen) 0 passes ≤ maxBufLen

instance (recCommLen : Byte) (passes : List Pass) : Decidable (FitsBuffer recCommLen passes) :=
  inferInstanceAs (Decidable (_ ≤ _))

/-- The caller's buffer lies apart from the transfer buffer. -/
def Apart (readwriteBuf dataBuf len : ℕ) : Prop :=
  dataBuf+len ≤ readwriteBuf ∨ readwriteBuf+maxBufLen ≤ dataBuf

/-! ## One read -/

section Read

variable {readwriteBuf readBuf : ℕ} {readLen : BitVec 16} {cmdOfset : Byte} {passes : List Pass}
  {m : Memory Byte}

def filled (readwriteBuf readLen : ℕ) (passes : List Pass) (m : Memory Byte) : Memory Byte :=
  store (cleared readwriteBuf m).memory readwriteBuf (received readLen 0 passes)

theorem cleared_collected (hlen : 0 < readLen.toNat)
    (hroom : delivered readLen.toNat 0 passes < 2^16) {p : Progress}
    (hp : readLoop readwriteBuf readLen passes (cleared readwriteBuf m) = p) :
    p.state.memory = filled readwriteBuf readLen.toNat passes m ∧
    p.state.numBytesRead.toNat = delivered readLen.toNat 0 passes ∧
    (Progress.IsComplete p ↔ readLen.toNat ≤ delivered readLen.toNat 0 passes) := by
  have hc := readLoop_collected readwriteBuf readLen passes (cleared readwriteBuf m) hlen hroom
  rw [hp] at hc
  exact ⟨hc.memory, hc.count, hc.complete⟩

variable (readwriteBuf readBuf cmdOfset m) in
theorem readFromDevice_whole (hlen : 0 < readLen.toNat)
    (hroom : delivered readLen.toNat 0 passes < 2^16)
    (henough : readLen.toNat ≤ delivered readLen.toNat 0 passes) :
    ∃ t, readFromDevice readwriteBuf readBuf readLen cmdOfset passes m = some t ∧
      t.status = shaSuccess ∧
      t.memory = formatBytes (filled readwriteBuf readLen.toNat passes m) readBuf
        (readwriteBuf+cmdOfset.toNat) (readLen-cmdOfset.setWidth 16) := by
  cases hr : readLoop readwriteBuf readLen passes (cleared readwriteBuf m) with
  | waiting s => exact absurd henough (mt (cleared_collected hlen hroom hr).2.2.mpr id)
  | timedOut s => exact absurd henough (mt (cleared_collected hlen hroom hr).2.2.mpr id)
  | complete s =>
    have hmemory : s.memory = filled readwriteBuf readLen.toNat passes m :=
      (cleared_collected hlen hroom hr).1
    refine ⟨_, by rw [readFromDevice, hr], rfl, ?_⟩
    rw [hmemory]

theorem readFromDevice_short {t : Transfer} (hlen : 0 < readLen.toNat)
    (hroom : delivered readLen.toNat 0 passes < 2^16)
    (hshort : delivered readLen.toNat 0 passes < readLen.toNat)
    (h : readFromDevice readwriteBuf readBuf readLen cmdOfset passes m = some t) :
    t.status = (if delivered readLen.toNat 0 passes = 0 then shaCommFail else shaSuccess) ∧
      t.memory = filled readwriteBuf readLen.toNat passes m := by
  cases hr : readLoop readwriteBuf readLen passes (cleared readwriteBuf m) with
  | waiting s => simp [readFromDevice, hr] at h
  | complete s =>
    exact absurd ((cleared_collected hlen hroom hr).2.2.mp trivial) (not_le.mpr hshort)
  | timedOut s =>
    obtain ⟨hmemory, hcount, _⟩ := cleared_collected hlen hroom hr
    simp only [Progress.state] at hmemory hcount
    simp only [readFromDevice, hr, Option.some.injEq] at h
    subst h
    constructor
    · have hzero : 0 < s.numBytesRead ↔ ¬ delivered readLen.toNat 0 passes = 0 := by
        rw [BitVec.lt_def, hcount]
        exact Nat.pos_iff_ne_zero
      simp only [hzero, ite_not]
    · exact hmemory

variable (readwriteBuf readBuf cmdOfset m) in
theorem readFromDevice_returns (hlen : 0 < readLen.toNat) (hsmall : readLen.toNat ≤ 2^15)
    (h : Finishes readLen.toNat passes) :
    ∃ t, readFromDevice readwriteBuf readBuf readLen cmdOfset passes m = some t := by
  have hroom := delivered_le readLen.toNat 0 passes h.bounded (Nat.zero_le _)
  rw [maxBufLen] at hroom
  rcases h.ended with htimeout | henough
  · cases hr : readLoop readwriteBuf readLen passes (cleared readwriteBuf m) with
    | waiting s => exact absurd hr (readLoop_timeout readwriteBuf readLen h.answered htimeout _ s)
    | timedOut s | complete s => exact ⟨_, by rw [readFromDevice, hr]⟩
  · obtain ⟨t, ht, -⟩ := readFromDevice_whole readwriteBuf readBuf cmdOfset m hlen (by omega) henough
    exact ⟨t, ht⟩

theorem filled_frame (n k : ℕ) (hk : k < readwriteBuf ∨ readwriteBuf+maxBufLen ≤ k)
    (hd : k < readwriteBuf ∨ readwriteBuf+delivered n 0 passes ≤ k) :
    filled readwriteBuf n passes m k = m k := by
  have hlength := received_length n 0 passes
  rw [filled, store_outside _ _ _ k (by omega)]
  exact store_outside m _ _ k (by rwa [List.length_replicate])

theorem readFromDevice_frame {t : Transfer} (hlen : 0 < readLen.toNat)
    (hroom : delivered readLen.toNat 0 passes < 2^16)
    (h : readFromDevice readwriteBuf readBuf readLen cmdOfset passes m = some t) (k : ℕ)
    (hk : k < readwriteBuf ∨ readwriteBuf+maxBufLen ≤ k)
    (hd : k < readwriteBuf ∨ readwriteBuf+delivered readLen.toNat 0 passes ≤ k)
    (hf : k < readBuf ∨ readBuf+formatted (readLen-cmdOfset.setWidth 16) ≤ k) :
    t.memory k = m k := by
  have hfilled := filled_frame (m := m) readLen.toNat k hk hd
  by_cases henough : readLen.toNat ≤ delivered readLen.toNat 0 passes
  · obtain ⟨t', ht', _, hmemory⟩ := readFromDevice_whole readwriteBuf readBuf cmdOfset m
      hlen hroom henough
    obtain rfl := Option.some.inj (ht'.symm.trans h)
    rw [hmemory, formatBytes_frame _ _ _ _ k hf]
    exact hfilled
  · rw [(readFromDevice_short hlen hroom (not_le.mp henough) h).2]
    exact hfilled

end Read

/-! ## The call -/

section Call

variable {readwriteBuf pTrm dataBuf : ℕ} {recCommLen : Byte} {writes : List Write}
  {passes : List Pass} {m : Memory Byte}

theorem readLen_toNat (h62 : recCommLen.toNat ≤ 62) :
    (BitVec.ofInt 16 ((recCommLen.toInt+1)*8)).toNat = rawLength recCommLen := by
  have hint : recCommLen.toInt = recCommLen.toNat := by
    rw [BitVec.toInt]
    split_ifs <;> omega
  rw [BitVec.toNat_ofInt, hint, rawLength]
  omega

theorem readLen_formatted (h62 : recCommLen.toNat ≤ 62) :
    formatted (BitVec.ofInt 16 ((recCommLen.toInt+1)*8)-(8 : Byte).setWidth 16) =
      recCommLen.toNat := by
  have hlen := readLen_toNat h62
  have height : ((8 : Byte).setWidth 16).toNat = 8 := by decide
  apply formatted_eq _ _ (by omega)
  rw [BitVec.toNat_sub, hlen, rawLength, height]
  omega

theorem filled_decoded (h62 : recCommLen.toNat ≤ 62)
    (hapart : Apart readwriteBuf dataBuf recCommLen.toNat)
    (henough : rawLength recCommLen ≤ (arrived recCommLen passes).length) :
    slice (formatBytes (filled readwriteBuf (rawLength recCommLen) passes m) dataBuf
        (readwriteBuf+(8 : Byte).toNat)
        (BitVec.ofInt 16 ((recCommLen.toInt+1)*8)-(8 : Byte).setWidth 16)) dataBuf
        recCommLen.toNat =
      decode ((arrived recCommLen passes).drop 8) recCommLen.toNat := by
  have hformatted := readLen_formatted h62
  simp only [rawLength] at henough
  simp only [Apart, maxBufLen] at hapart
  have height : (8 : Byte).toNat = 8 := by decide
  have hdecode := formatBytes_decode dataBuf (cleared readwriteBuf m).memory readwriteBuf 8
    (arrived recCommLen passes) (BitVec.ofInt 16 ((recCommLen.toInt+1)*8)-(8 : Byte).setWidth 16)
    (by rw [hformatted]; omega) (by
      intro j hj i hi
      rw [hformatted] at hj
      simp only [ReadFirst]
      omega)
  rw [hformatted] at hdecode
  rw [height]
  exact hdecode

theorem length_ne_zero {len : Byte} (h1 : 1 ≤ len.toNat) : len ≠ 0 := by
  rintro rfl
  exact absurd h1 (by decide)

theorem receiveBytes_inv {t : Received} (h1 : 1 ≤ recCommLen.toNat)
    (h : shapReceiveBytes readwriteBuf pTrm recCommLen (some dataBuf) writes passes m = some t) :
    ∃ w r, writeToDevice readwriteBuf pTrm 1 writes m = some w ∧
      readFromDevice readwriteBuf dataBuf (BitVec.ofInt 16 ((recCommLen.toInt+1)*8)) 8 passes
        w.memory = some r ∧
      t = ⟨if r.status = shaCommFail then shaCommFail else shaSuccess, r.memory⟩ := by
  have hne := length_ne_zero h1
  simp only [shapReceiveBytes, if_neg hne] at h
  cases hw : writeToDevice readwriteBuf pTrm 1 writes m with
  | none =>
    rw [hw] at h
    cases h
  | some w =>
    rw [hw] at h
    obtain ⟨r, hr, rfl⟩ := Option.map_eq_some_iff.mp h
    exact ⟨w, r, rfl, hr, rfl⟩

/-- A success comes with the whole response, decoded into the caller's buffer,
and a response cut off by the timeout is a failure. -/
structure Faithful (recCommLen : Byte) (dataBuf : ℕ) (passes : List Pass) (t : Received) :
    Prop where
  success : t.status = shaSuccess → rawLength recCommLen ≤ (arrived recCommLen passes).length ∧
    slice t.memory dataBuf recCommLen.toNat =
      decode ((arrived recCommLen passes).drop 8) recCommLen.toNat
  failure : (arrived recCommLen passes).length < rawLength recCommLen → t.status = shaCommFail

variable (recCommLen passes) in
theorem arrived_length :
    (arrived recCommLen passes).length = delivered (rawLength recCommLen) 0 passes := by
  have h := received_length (rawLength recCommLen) 0 passes
  rw [Nat.zero_add] at h
  exact h

theorem rawLength_pos : 0 < rawLength recCommLen := by
  simp only [rawLength]
  omega

theorem readLen_pos (h62 : recCommLen.toNat ≤ 62) :
    0 < (BitVec.ofInt 16 ((recCommLen.toInt+1)*8)).toNat := by
  rw [readLen_toNat h62]
  exact rawLength_pos

theorem fits_room (hfits : FitsBuffer recCommLen passes) :
    delivered (rawLength recCommLen) 0 passes < 2^16 := by
  simp only [FitsBuffer, maxBufLen] at hfits
  omega

theorem receive_whole {w : Written} (h1 : 1 ≤ recCommLen.toNat) (h62 : recCommLen.toNat ≤ 62)
    (hapart : Apart readwriteBuf dataBuf recCommLen.toNat) (hfits : FitsBuffer recCommLen passes)
    (hw : writeToDevice readwriteBuf pTrm 1 writes m = some w)
    (henough : rawLength recCommLen ≤ (arrived recCommLen passes).length) :
    ∃ t, shapReceiveBytes readwriteBuf pTrm recCommLen (some dataBuf) writes passes m = some t ∧
      t.status = shaSuccess ∧ slice t.memory dataBuf recCommLen.toNat =
        decode ((arrived recCommLen passes).drop 8) recCommLen.toNat := by
  have hlen := readLen_toNat h62
  have hroom := fits_room hfits
  have hdelivered := henough
  rw [arrived_length] at hdelivered
  have hne := length_ne_zero h1
  obtain ⟨r, hr, hsuccess, hformat⟩ := readFromDevice_whole readwriteBuf dataBuf 8 w.memory
    (readLen_pos h62) (by rwa [hlen]) (by rwa [hlen])
  refine ⟨⟨shaSuccess, r.memory⟩, ?_, rfl, ?_⟩
  · simp only [shapReceiveBytes, if_neg hne]
    rw [hw]
    show Option.map _ (readFromDevice _ _ _ 8 _ _) = _
    rw [hr, Option.map_some, hsuccess]
    rfl
  · show slice r.memory _ _ = _
    rw [hformat, hlen]
    exact filled_decoded h62 hapart henough

/-- A call returns once its write is answered and its read is ended. -/
theorem receive_returns (h1 : 1 ≤ recCommLen.toNat) (h62 : recCommLen.toNat ≤ 62)
    (hwrites : writeRetried writes ≠ none) (hpasses : Finishes (rawLength recCommLen) passes) :
    ∃ t, shapReceiveBytes readwriteBuf pTrm recCommLen (some dataBuf) writes passes m = some t := by
  have hlen := readLen_toNat h62
  have hne := length_ne_zero h1
  obtain ⟨w, hw⟩ := writeToDevice_returns readwriteBuf pTrm 1 m hwrites
  obtain ⟨r, hr⟩ := readFromDevice_returns readwriteBuf dataBuf 8 w.memory (readLen_pos h62)
    (by rw [hlen, rawLength]; omega) (by rwa [hlen])
  simp only [shapReceiveBytes, if_neg hne, hw]
  exact ⟨_, Option.map_eq_some_iff.mpr ⟨r, hr, rfl⟩⟩

/-- A call that returns is faithful exactly when nothing arrived or the whole
response did. -/
theorem receive_faithful_iff {t : Received} (h1 : 1 ≤ recCommLen.toNat)
    (h62 : recCommLen.toNat ≤ 62) (hapart : Apart readwriteBuf dataBuf recCommLen.toNat)
    (hfits : FitsBuffer recCommLen passes)
    (h : shapReceiveBytes readwriteBuf pTrm recCommLen (some dataBuf) writes passes m = some t) :
    Faithful recCommLen dataBuf passes t ↔ (arrived recCommLen passes).length = 0 ∨
      rawLength recCommLen ≤ (arrived recCommLen passes).length := by
  obtain ⟨w, r, hw, hr, ht⟩ := receiveBytes_inv h1 h
  have hstatus : t.status = if r.status = shaCommFail then shaCommFail else shaSuccess := by
    rw [ht]
  by_cases henough : rawLength recCommLen ≤ (arrived recCommLen passes).length
  · obtain ⟨t', ht', _, hdecoded⟩ := receive_whole h1 h62 hapart hfits hw henough
    obtain rfl := Option.some.inj (ht'.symm.trans h)
    apply iff_of_true _ (.inr henough)
    constructor
    case success => exact fun _ => ⟨henough, hdecoded⟩
    case failure => exact fun hshort => absurd henough (not_le.mpr hshort)
  · have hlen := readLen_toNat h62
    have hsize := arrived_length recCommLen passes
    have hroom := fits_room hfits
    obtain ⟨hshort, _⟩ := readFromDevice_short (readLen_pos h62) (by rwa [hlen])
      (by rw [hlen, ← hsize]; omega) hr
    rw [hlen, ← hsize] at hshort
    rw [hshort] at hstatus
    by_cases hzero : (arrived recCommLen passes).length = 0
    · rw [if_pos hzero, if_pos rfl] at hstatus
      apply iff_of_true _ (.inl hzero)
      constructor
      case success => exact fun hs => absurd (hstatus.symm.trans hs) (by decide)
      case failure => exact fun _ => hstatus
    · -- the part that arrived is reported as a success
      rw [if_neg hzero, if_neg (by decide)] at hstatus
      apply iff_of_false _ (fun hor => hor.elim hzero henough)
      intro hf
      exact absurd (hstatus.symm.trans (hf.failure (not_le.mp henough))) (by decide)

end Call

def blank : Memory Byte := fun _ => 0

def timeoutPass : Pass := ⟨⟨0, false, false⟩, []⟩

def splitPasses : List Pass :=
  [readyPass (List.replicate 9 0x7F), ⟨⟨-1, true, true⟩, []⟩, readyPass (List.replicate 7 0x7D)]

theorem receive_faithful_split : ∃ t,
    shapReceiveBytes 0 600 1 (some 700) [.accepted 8] splitPasses blank = some t ∧
    (Faithful 1 700 splitPasses t ↔ (arrived 1 splitPasses).length = 0 ∨
      rawLength 1 ≤ (arrived 1 splitPasses).length) :=
  ⟨_, rfl, receive_faithful_iff (by decide) (by decide) (.inr (by decide)) (by decide +kernel)
    (show shapReceiveBytes 0 600 1 (some 700) [.accepted 8] splitPasses blank = some _ from rfl)⟩

/-- One of sixteen raw bytes arrives before the timeout, and the call reports a
success. -/
theorem cut_response_accepted : ∃ t,
    shapReceiveBytes 0 600 1 (some 700) [.accepted 8] [readyPass [0x7F], timeoutPass] blank =
      some t ∧ t.status = shaSuccess ∧
    (arrived 1 [readyPass [0x7F], timeoutPass]).length = 1 ∧
    ¬ Faithful 1 700 [readyPass [0x7F], timeoutPass] t := by
  refine ⟨_, rfl, by decide +kernel, by decide +kernel, ?_⟩
  intro hf
  exact absurd (hf.failure (by decide +kernel)) (by decide +kernel)

/-! ## Splittings of one stream -/

/-- Every pass is interrupted or brings bytes, which together are the stream. -/
def Carries (passes : List Pass) (stream : List Byte) : Prop :=
  ∃ chunks : List (List Byte), passes.map Pass.chunk = chunks.map some ∧ chunks.flatten = stream

theorem Carries.tail {p : Pass} {ps : List Pass} {chunk stream : List Byte}
    (h : Carries (p::ps) stream) (hc : p.chunk = some chunk) :
    ∃ rest, stream = chunk ++ rest ∧ Carries ps rest := by
  obtain ⟨chunks, hchunks, rfl⟩ := h
  cases chunks with
  | nil => simp at hchunks
  | cons chunk' chunks =>
    simp only [List.map_cons, List.cons.injEq] at hchunks
    obtain ⟨hp, hps⟩ := hchunks
    obtain rfl : chunk = chunk' := Option.some.inj (hc.symm.trans hp)
    exact ⟨chunks.flatten, List.flatten_cons, chunks, hps, rfl⟩

theorem carries_received (readLen n : ℕ) (passes : List Pass) (stream : List Byte)
    (hc : Carries passes stream) (henough : readLen ≤ n+stream.length) (hn : n < readLen) :
    readLen ≤ delivered readLen n passes ∧ received readLen n passes <+: stream := by
  induction n, passes using delivered.induct readLen generalizing stream with
  | case1 n =>
    obtain ⟨chunks, hchunks, rfl⟩ := hc
    have hnil : chunks = [] := by simpa using hchunks.symm
    subst hnil
    simp only [List.flatten_nil, List.length_nil] at henough
    omega
  | case2 n p ps hnone =>
    obtain ⟨chunks, hchunks, _⟩ := hc
    cases chunks with
    | nil => simp at hchunks
    | cons chunk chunks =>
      simp only [List.map_cons, List.cons.injEq] at hchunks
      exact absurd (hnone.symm.trans hchunks.1) (Option.some_ne_none chunk).symm
  | case3 n p ps hidle ih =>
    obtain ⟨_, rfl, hrest⟩ := hc.tail hidle
    rw [received_idle readLen n ps hidle, delivered_idle readLen n ps hidle]
    exact ih _ hrest henough hn
  | case4 n p ps b bs hchunk _ hdone =>
    obtain ⟨rest, rfl, _⟩ := hc.tail hchunk
    rw [received_last readLen n ps hchunk hdone, delivered_last readLen n ps hchunk hdone]
    exact ⟨hdone, List.prefix_append _ _⟩
  | case5 n p ps b bs hchunk _ hmore ih =>
    obtain ⟨rest, rfl, hrest⟩ := hc.tail hchunk
    rw [List.length_append, ← Nat.add_assoc] at henough
    obtain ⟨hle, hprefix⟩ := ih rest hrest henough (not_le.mp hmore)
    rw [received_more readLen n ps hchunk hmore, delivered_more readLen n ps hchunk hmore]
    exact ⟨hle, (List.prefix_append_right_inj _).mpr hprefix⟩

theorem decode_prefix {xs ys : List Byte} {n : ℕ} (h : xs <+: ys) (hn : 8*(n+1) ≤ xs.length) :
    decode (xs.drop 8) n = decode (ys.drop 8) n := by
  apply List.map_congr_left
  intro j hj
  have hj' := List.mem_range.mp hj
  apply decodeByte_congr
  intro i hi
  have hx : 8+(8*j+i) < xs.length := by omega
  have hy : 8+(8*j+i) < ys.length := lt_of_lt_of_le hx h.length_le
  simp [List.getD, List.getElem?_drop, hx, hy, h.getElem hx]

theorem decode_getLsbD (raw : List Byte) (n j i : ℕ) (hj : j < n) (hi : i < 8) :
    ((decode (raw.drop 8) n).getD j 0).getLsbD i = true ↔
      ∀ k, 2 ≤ k → k ≤ 6 → (raw.getD (8+8*j+i) 0).getLsbD k = true := by
  have hbyte : (decode (raw.drop 8) n).getD j 0 =
      decodeByte (fun i => (raw.drop 8).getD (8*j+i) 0) := by
    simp [decode, hj]
  have hraw : (raw.drop 8).getD (8*j+i) 0 = raw.getD (8+8*j+i) 0 := by
    simp [List.getD, List.getElem?_drop, Nat.add_assoc]
  rw [hbyte, decodeByte_getLsbD _ i hi, hraw]
  exact marks_iff _

/-- The bytes of a response are determined by the stream: neither its splitting
nor what the buffers held makes a difference. -/
theorem receive_determined (recCommLen : Byte) (h1 : 1 ≤ recCommLen.toNat)
    (h62 : recCommLen.toNat ≤ 62) (stream : List Byte)
    (henough : 8*(recCommLen.toNat+1) ≤ stream.length) :
    ∃ bytes : List Byte, bytes.length = recCommLen.toNat ∧
      (∀ j < recCommLen.toNat, ∀ i < 8, (bytes.getD j 0).getLsbD i = true ↔
        ∀ k, 2 ≤ k → k ≤ 6 → (stream.getD (8+8*j+i) 0).getLsbD k = true) ∧
      ∀ readwriteBuf pTrm dataBuf writes passes m,
        Apart readwriteBuf dataBuf recCommLen.toNat → writeRetried writes ≠ none →
        Carries passes stream → FitsBuffer recCommLen passes →
        ∃ t, shapReceiveBytes readwriteBuf pTrm recCommLen (some dataBuf) writes passes m =
          some t ∧ t.status = shaSuccess ∧ slice t.memory dataBuf recCommLen.toNat = bytes := by
  refine ⟨decode (stream.drop 8) recCommLen.toNat, by simp [decode], ?_, ?_⟩
  · intro j hj i hi
    exact decode_getLsbD stream recCommLen.toNat j i hj hi
  · intro readwriteBuf pTrm dataBuf writes passes m hapart hwrites hcarries hfits
    obtain ⟨hdelivered, hprefix⟩ := carries_received (rawLength recCommLen) 0 passes stream hcarries
      (by simpa [rawLength] using henough) rawLength_pos
    have hwhole : rawLength recCommLen ≤ (arrived recCommLen passes).length := by
      rwa [arrived_length]
    obtain ⟨w, hw⟩ := writeToDevice_returns readwriteBuf pTrm 1 m hwrites
    obtain ⟨t, ht, hsuccess, hdecoded⟩ := receive_whole h1 h62 hapart hfits hw hwhole
    refine ⟨t, ht, hsuccess, ?_⟩
    rw [hdecoded]
    exact decode_prefix hprefix hwhole

theorem receive_determined_split : ∃ bytes : List Byte, bytes.length = 1 ∧ ∃ t,
    shapReceiveBytes 0 600 1 (some 700) [.accepted 8] splitPasses blank = some t ∧
      t.status = shaSuccess ∧ slice t.memory 700 1 = bytes := by
  obtain ⟨bytes, hlength, _, hrun⟩ := receive_determined 1 (by decide) (by decide)
    (List.replicate 9 0x7F ++ List.replicate 7 0x7D) (by decide)
  refine ⟨bytes, hlength, ?_⟩
  exact hrun 0 600 700 [.accepted 8] splitPasses blank (.inr (by decide)) (by decide)
    ⟨[List.replicate 9 0x7F, [], List.replicate 7 0x7D], rfl, rfl⟩ (by decide +kernel)

end Wingray.WhisperReceive
