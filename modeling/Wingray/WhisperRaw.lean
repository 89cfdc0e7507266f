import Wingray.BitAssembly
import Wingray.WhisperSerial

/-!
# Bytes on the serial line

A byte is written as eight raw bytes, one for each bit. On the way back a bit is
one when bits 2 to 6 of its raw byte are set.
-/

set_option autoImplicit false

namespace Wingray.WhisperRaw
open Wingray.CellMemory Wingray.WhisperCrc Wingray.WhisperExchange Wingray.WhisperSerial
open Wingray.BitAssembly

def mOneBit : Byte := 0x7F
def mZeroBit : Byte := 0x7D

/-! ## Reading back -/

def marks (raw : Byte) : Bool := (raw ^^^ 0x7F) &&& 0x7C = 0

theorem marks_iff (raw : Byte) :
    marks raw = true ↔ ∀ k, 2 ≤ k → k ≤ 6 → raw.getLsbD k = true := by
  have hmask : ∀ k : Fin 8, (0x7C : Byte).getLsbD k = decide (2 ≤ k.val ∧ k.val ≤ 6) := by decide
  have hones : ∀ k : Fin 8, (0x7F : Byte).getLsbD k = decide (k.val ≤ 6) := by decide
  rw [marks, decide_eq_true_eq]
  constructor
  · intro h k h2 h6
    have hbit := congrArg (fun b => b.getLsbD k) h
    have hm := hmask ⟨k, by omega⟩
    have ho := hones ⟨k, by omega⟩
    simp only at hm ho
    simp only [BitVec.getLsbD_and, BitVec.getLsbD_xor] at hbit
    rw [hm, ho] at hbit
    simpa [h2, h6] using hbit
  · intro h
    apply BitVec.eq_of_getLsbD_eq
    intro k hk
    have hm := hmask ⟨k, hk⟩
    have ho := hones ⟨k, hk⟩
    simp only at hm ho
    rw [BitVec.getLsbD_and, BitVec.getLsbD_xor, hm, ho]
    by_cases hrange : 2 ≤ k ∧ k ≤ 6
    · simp [hrange, h k hrange.1 hrange.2]
    · simp [hrange]

def decodeByte (raw : ℕ → Byte) : Byte := assemble (fun i => marks (raw i)) 8 0

theorem decodeByte_getLsbD (raw : ℕ → Byte) (i : ℕ) (hi : i < 8) :
    (decodeByte raw).getLsbD i = marks (raw i) := by
  rw [decodeByte, assemble_getLsbD _ _ _ i hi, if_pos hi]

theorem decodeByte_congr {raw raw' : ℕ → Byte} (h : ∀ i < 8, raw i = raw' i) :
    decodeByte raw = decodeByte raw' := by
  apply BitVec.eq_of_getLsbD_eq
  intro i hi
  rw [decodeByte_getLsbD raw i hi, decodeByte_getLsbD raw' i hi, h i hi]

def decode (raw : List Byte) (n : ℕ) : List Byte :=
  (List.range n).map (fun j => decodeByte (fun i => raw.getD (8*j+i) 0))

section Format

variable (byteData byteDataRaw : ℕ) (m : Memory Byte) (j : ℕ)

theorem formatBit_eq (i : ℕ) : formatBit byteData byteDataRaw m j i =
    store m (byteData+j)
      [assign (m (byteData+j)) i (marks (m (byteDataRaw+(8*j+i))))] := by
  have hmask : ((1 <<< i : ℕ) : Byte) = 1#8 <<< i := by
    apply BitVec.eq_of_toNat_eq
    simp [BitVec.toNat_shiftLeft]
  simp only [formatBit, assign, marks, hmask]
  split_ifs with h <;> simp_all

/-- One byte is assembled in its cell while its raw bytes stay as they are. The
first of them may lie in the cell itself: it is read before the cell changes. -/
theorem formatByte_eq (n : ℕ) (h : ∀ i < n, i ≠ 0 → byteDataRaw+(8*j+i) ≠ byteData+j) :
    (List.range n).foldl (fun m i => formatBit byteData byteDataRaw m j i) m =
      store m (byteData+j)
        [assemble (fun i => marks (m (byteDataRaw+(8*j+i)))) n (m (byteData+j))] := by
  induction n with
  | zero =>
    have hcell := store_slice m (byteData+j) 1
    exact hcell.symm
  | succ n ih =>
    have hraw : store m (byteData+j) [assemble (fun i => marks (m (byteDataRaw+(8*j+i)))) n
        (m (byteData+j))] (byteDataRaw+(8*j+n)) = m (byteDataRaw+(8*j+n)) := by
      by_cases hn : n = 0
      · subst hn
        have hcell := store_slice m (byteData+j) 1
        exact congrFun hcell _
      · apply store_outside
        have := h n (Nat.lt_succ_self n) hn
        simp only [List.length_singleton]
        omega
    have hcell := store_inside m (byteData+j) [assemble (fun i => marks (m (byteDataRaw+(8*j+i)))) n
        (m (byteData+j))] 0 (by simp)
    rw [Nat.add_zero] at hcell
    rw [List.range_succ, List.foldl_append, ih (fun i hi => h i (Nat.lt_succ_of_lt hi)),
      List.foldl_cons, List.foldl_nil, formatBit_eq, hraw, hcell, assemble_succ]
    exact store_again m _ _ _ rfl

def formatted (lenData : BitVec 16) : ℕ := (lenData.toInt.tdiv 8).toNat

theorem formatted_eq (n : ℕ) (lenData : BitVec 16) (hn : 8*n < 2^15) (h : lenData.toNat = 8*n) :
    formatted lenData = n := by
  have hint : lenData.toInt = 8*(n : ℤ) := by
    rw [BitVec.toInt, h]
    split_ifs <;> omega
  rw [formatted, hint, Int.mul_tdiv_cancel_left _ (by decide)]
  exact Int.toNat_natCast _

/-- Raw byte `i` of cell `j` lies in no cell that is filled before it is read.
The cells are filled in order, and a cell is not changed before the first of
its raw bytes is read. -/
def ReadFirst (byteData byteDataRaw j i : ℕ) : Prop :=
  byteDataRaw+(8*j+i) < byteData ∨ byteData+j < byteDataRaw+(8*j+i) ∨
    (i = 0 ∧ byteDataRaw+(8*j+i) = byteData+j)

/-- When it reads its raw bytes first `formatBytes` fills the cells with what
they stand for, whatever the cells held. -/
theorem formatBytes_eq (lenData : BitVec 16)
    (h : ∀ j < formatted lenData, ∀ i < 8, ReadFirst byteData byteDataRaw j i) :
    formatBytes m byteData byteDataRaw lenData = store m byteData
      ((List.range (formatted lenData)).map
        (fun j => decodeByte (fun i => m (byteDataRaw+(8*j+i))))) := by
  simp only [ReadFirst] at h
  have hbytes : formatBytes m byteData byteDataRaw lenData =
      (List.range (formatted lenData)).foldl (fun m j => store m (byteData+1*j)
        [assemble (fun i => marks (m (byteDataRaw+(8*j+i)))) 8 (m (byteData+j))]) m := by
    rw [formatBytes]
    apply List.foldl_ext
    intro m j hj
    have hj' : j < formatted lenData := List.mem_range.mp hj
    rw [Nat.one_mul]
    apply formatByte_eq
    intro i hi hne
    have := h j hj' i hi
    omega
  rw [hbytes, store_blocks 1 byteData _ (fun _ _ => rfl)]
  · congr 1
    rw [← List.map_eq_flatMap]
    apply List.map_congr_left
    intro j _
    exact assemble_full _ _ _
  · intro j hj m' hm'
    have hold : m' (byteData+j) = m (byteData+j) := hm' _ (by omega)
    have hraw : ∀ i < 8, m' (byteDataRaw+(8*j+i)) = m (byteDataRaw+(8*j+i)) := by
      intro i hi
      have := h j hj i hi
      exact hm' _ (by omega)
    rw [hold]
    congr 1
    apply BitVec.eq_of_getLsbD_eq
    intro i hi
    rw [assemble_getLsbD _ _ _ i hi, assemble_getLsbD _ _ _ i hi, if_pos hi, if_pos hi, hraw i hi]

theorem formatBytes_slice (lenData : BitVec 16)
    (h : ∀ j < formatted lenData, ∀ i < 8, ReadFirst byteData byteDataRaw j i) :
    slice (formatBytes m byteData byteDataRaw lenData) byteData (formatted lenData) =
      (List.range (formatted lenData)).map
        (fun j => decodeByte (fun i => m (byteDataRaw+(8*j+i)))) := by
  have hslice := slice_store m byteData ((List.range (formatted lenData)).map
    (fun j => decodeByte (fun i => m (byteDataRaw+(8*j+i)))))
  rw [List.length_map, List.length_range] at hslice
  rw [formatBytes_eq byteData byteDataRaw m lenData h]
  exact hslice

theorem formatBytes_decode (start offset : ℕ) (raw : List Byte) (lenData : BitVec 16)
    (henough : offset+8*formatted lenData ≤ raw.length)
    (h : ∀ j < formatted lenData, ∀ i < 8, ReadFirst byteData (start+offset) j i) :
    slice (formatBytes (store m start raw) byteData (start+offset) lenData) byteData
        (formatted lenData) = decode (raw.drop offset) (formatted lenData) := by
  rw [formatBytes_slice _ _ _ _ h, decode]
  apply List.map_congr_left
  intro j hj
  have hj' := List.mem_range.mp hj
  apply decodeByte_congr
  intro i hi
  have hindex : offset+(8*j+i) < raw.length := by omega
  rw [Nat.add_assoc, store_inside m start raw _ hindex]
  simp [List.getD, List.getElem?_drop, hindex]

theorem formatBytes_frame (lenData : BitVec 16) (k : ℕ)
    (hk : k < byteData ∨ byteData+formatted lenData ≤ k) :
    formatBytes m byteData byteDataRaw lenData k = m k := by
  apply foldl_frame
  intro m j hj
  have hj' : j < formatted lenData := List.mem_range.mp hj
  apply foldl_frame
  intro m i _
  rw [formatBit_eq]
  apply store_outside
  rw [List.length_singleton]
  omega

end Format

/-! ## Writing -/

def rawBits (b : Byte) : List Byte :=
  (List.range 8).map (fun j => if b.getLsbD j then mOneBit else mZeroBit)

/-- Each byte least significant bit first. -/
def encoding (bytes : List Byte) : List Byte := bytes.flatMap rawBits

theorem rawBits_length (b : Byte) : (rawBits b).length = 8 := by
  simp [rawBits]

theorem encoding_length (bytes : List Byte) : (encoding bytes).length = 8*bytes.length := by
  simp [encoding, List.length_flatMap, rawBits_length, Nat.mul_comm]

theorem encoding_marks (bytes : List Byte) : ∀ raw ∈ encoding bytes, marks raw = true := by
  have hone : marks mOneBit = true := by decide
  have hzero : marks mZeroBit = true := by decide
  simp only [encoding, rawBits, List.mem_flatMap, List.mem_map]
  rintro raw ⟨b, -, j, -, rfl⟩
  split_ifs
  · exact hone
  · exact hzero

/-- Both raw bytes that are written read back as a one. -/
theorem decode_encoding (bytes raw : List Byte) :
    decode (encoding bytes ++ raw) bytes.length = List.replicate bytes.length 0xFF := by
  apply List.ext_getElem
  · simp [decode]
  · intro j hj hj'
    have hlt : j < bytes.length := by simpa using hj'
    simp only [decode, List.getElem_map, List.getElem_range, List.getElem_replicate]
    apply BitVec.eq_of_getLsbD_eq
    intro i hi
    have hindex : 8*j+i < (encoding bytes).length := by
      rw [encoding_length]
      omega
    have hall : (0xFF : Byte).getLsbD i = true := by
      interval_cases i <;> rfl
    rw [decodeByte_getLsbD _ i hi, hall, List.getD, List.getElem?_append_left hindex,
      List.getElem?_eq_getElem hindex]
    exact encoding_marks bytes _ (List.getElem_mem hindex)

section Encode

variable (readwriteBuf data : ℕ)

def encodeBit (m : Memory Byte) (i j : ℕ) : Memory Byte :=
  store m (readwriteBuf+((i*8)+j))
    [if m (data+i) &&& (1#8 <<< j) ≠ 0 then mOneBit else mZeroBit]

def encodeBytes (len : ℕ) (m : Memory Byte) : Memory Byte :=
  (List.range len).foldl
    (fun m i => (List.range 8).foldl (fun m j => encodeBit readwriteBuf data m i j) m) m

theorem encodeByte_eq (m : Memory Byte) (i : ℕ)
    (h : data+i < readwriteBuf+8*i ∨ readwriteBuf+8*i+8 ≤ data+i) :
    (List.range 8).foldl (fun m j => encodeBit readwriteBuf data m i j) m =
      store m (readwriteBuf+8*i) (rawBits (m (data+i))) := by
  have hbits : (List.range 8).foldl (fun m j => encodeBit readwriteBuf data m i j) m =
      (List.range 8).foldl (fun m j => store m (readwriteBuf+8*i+1*j)
        [if (m (data+i)).getLsbD j then mOneBit else mZeroBit]) m := by
    apply List.foldl_ext
    intro m j hj
    have haddress : readwriteBuf+((i*8)+j) = readwriteBuf+8*i+1*j := by omega
    have hbit : m (data+i) &&& (1#8 <<< j) ≠ 0 ↔ (m (data+i)).getLsbD j = true :=
      and_mask_ne_zero (m (data+i)) j (List.mem_range.mp hj)
    rw [encodeBit, haddress]
    simp only [hbit]
  rw [hbits, store_blocks 1 _ _ (fun _ _ => rfl)]
  · rw [← List.map_eq_flatMap]
    rfl
  · intro j hj m' hm'
    have hcell : m' (data+i) = m (data+i) := hm' _ (by omega)
    simp only [hcell]

theorem encodeBytes_eq (len : ℕ) (m : Memory Byte)
    (h : ∀ i < len, data+i < readwriteBuf ∨ readwriteBuf+8*len ≤ data+i) :
    encodeBytes readwriteBuf data len m =
      store m readwriteBuf (encoding (slice m data len)) := by
  have hbytes : encodeBytes readwriteBuf data len m =
      (List.range len).foldl (fun m i => store m (readwriteBuf+8*i) (rawBits (m (data+i)))) m := by
    apply List.foldl_ext
    intro m i hi
    have hi' : i < len := List.mem_range.mp hi
    have := h i hi'
    exact encodeByte_eq readwriteBuf data m i (by omega)
  rw [hbytes, store_blocks 8 _ _ (fun _ _ => rawBits_length _)]
  · rw [encoding, slice, List.flatMap_map]
  · intro i hi m' hm'
    have := h i hi
    have hcell : m' (data+i) = m (data+i) := hm' _ (by omega)
    simp only [hcell]

end Encode

/-! ## The driver -/

inductive Write where
  | accepted (nwritten : ℕ)
  | interrupted
  | failed
  deriving DecidableEq

/-- `do … while (nwritten < 0 && errno == EINTR)` around the write. -/
def writeRetried : List Write → Option Write
  | [] => none
  | .interrupted::ws => writeRetried ws
  | w::_ => some w

/-- A finished `writeToDevice`: its return value, the memory, and the raw bytes
handed to the driver and taken by it. -/
structure Written where
  ret : Status
  memory : Memory Byte
  handed : List Byte
  taken : List Byte

def writeToDevice (readwriteBuf data : ℕ) (len : Byte) (writes : List Write) (m : Memory Byte) :
    Option Written :=
  if maxBufLen < len.toNat*8 then some ⟨shaCommFail, m, [], []⟩
  else
    let m := encodeBytes readwriteBuf data len.toNat m
    let raw := slice m readwriteBuf (len.toNat*8)
    match writeRetried writes with
    | none => none
    | some (.accepted nwritten) =>
      some ⟨BitVec.ofNat 8 (nwritten/8), m, raw, raw.take nwritten⟩
    | some _ => some ⟨shaCommFail, m, raw, []⟩

def takenOf (writes : List Write) (raw : List Byte) : List Byte :=
  match writeRetried writes with
  | some (.accepted nwritten) => raw.take nwritten
  | _ => []

theorem writeToDevice_returns (readwriteBuf data : ℕ) (len : Byte) {writes : List Write}
    (m : Memory Byte) (h : writeRetried writes ≠ none) :
    ∃ w, writeToDevice readwriteBuf data len writes m = some w := by
  rw [writeToDevice]
  split_ifs
  · exact ⟨_, rfl⟩
  · cases hr : writeRetried writes with
    | none => exact absurd hr h
    | some r => cases r <;> exact ⟨_, rfl⟩

/-- A write that ends hands over the encoding of the data, or nothing when that
is larger than the transfer buffer. -/
theorem writeToDevice_cases {readwriteBuf data : ℕ} {len : Byte} {writes : List Write}
    {m : Memory Byte} {w : Written}
    (h : ∀ i < len.toNat, data+i < readwriteBuf ∨ readwriteBuf+maxBufLen ≤ data+i)
    (hw : writeToDevice readwriteBuf data len writes m = some w) :
    (maxBufLen < len.toNat*8 ∧ w.memory = m ∧ w.handed = [] ∧ w.taken = []) ∨
    (len.toNat*8 ≤ maxBufLen ∧
      w.memory = store m readwriteBuf (encoding (slice m data len.toNat)) ∧
      w.handed = encoding (slice m data len.toNat) ∧
      w.taken = takenOf writes (encoding (slice m data len.toNat))) := by
  rw [writeToDevice] at hw
  split_ifs at hw with hlarge
  · obtain rfl := Option.some.inj hw
    exact .inl ⟨hlarge, rfl, rfl, rfl⟩
  · right
    have hapart : ∀ i < len.toNat, data+i < readwriteBuf ∨ readwriteBuf+8*len.toNat ≤ data+i := by
      intro i hi
      have := h i hi
      omega
    have hlength : len.toNat*8 = (encoding (slice m data len.toNat)).length := by
      rw [encoding_length, slice_length, Nat.mul_comm]
    simp only [encodeBytes_eq readwriteBuf data len.toNat m hapart, hlength, slice_store] at hw
    refine ⟨by omega, ?_⟩
    cases hr : writeRetried writes with
    | none => simp only [hr, reduceCtorEq] at hw
    | some r =>
      cases r with
      | accepted nwritten =>
        simp only [hr, Option.some.injEq] at hw
        subst hw
        exact ⟨rfl, rfl, by rw [takenOf, hr]⟩
      | interrupted =>
        simp only [hr, Option.some.injEq] at hw
        subst hw
        exact ⟨rfl, rfl, by rw [takenOf, hr]⟩
      | failed =>
        simp only [hr, Option.some.injEq] at hw
        subst hw
        exact ⟨rfl, rfl, by rw [takenOf, hr]⟩

/-! ## The bytes that arrive -/

/-- The bytes stored up to the chunk that completes the request or the pass
that ends the loop. -/
def received (readLen : ℕ) : ℕ → List Pass → List Byte
  | _, [] => []
  | n, p::ps =>
    match p.chunk with
    | none => []
    | some [] => received readLen n ps
    | some (b::bs) =>
      let n := n+(b::bs).length
      (b::bs) ++ if readLen ≤ n then [] else received readLen n ps

section Chunks

variable {p : Pass} {b : Byte} {bs : List Byte} (readLen n : ℕ) (ps : List Pass)

theorem received_end (hc : p.chunk = none) : received readLen n (p::ps) = [] := by
  rw [received, hc]

theorem received_idle (hc : p.chunk = some []) :
    received readLen n (p::ps) = received readLen n ps := by
  rw [received, hc]

theorem received_last (hc : p.chunk = some (b::bs)) (hdone : readLen ≤ n+(b::bs).length) :
    received readLen n (p::ps) = b::bs := by
  rw [received, hc]
  dsimp only
  rw [if_pos hdone, List.append_nil]

theorem received_more (hc : p.chunk = some (b::bs)) (hmore : ¬ readLen ≤ n+(b::bs).length) :
    received readLen n (p::ps) = (b::bs) ++ received readLen (n+(b::bs).length) ps := by
  rw [received, hc]
  dsimp only
  rw [if_neg hmore]

end Chunks

theorem received_length (readLen n : ℕ) (ps : List Pass) :
    n+(received readLen n ps).length = delivered readLen n ps := by
  induction n, ps using delivered.induct readLen with
  | case1 n => rfl
  | case2 n p ps hc =>
    rw [received_end readLen n ps hc, delivered_end readLen n ps hc, List.length_nil,
      Nat.add_zero]
  | case3 n p ps hc ih =>
    rw [received_idle readLen n ps hc, delivered_idle readLen n ps hc]
    exact ih
  | case4 n p ps b bs hc _ hdone =>
    rw [received_last readLen n ps hc hdone, delivered_last readLen n ps hc hdone]
  | case5 n p ps b bs hc _ hmore ih =>
    rw [received_more readLen n ps hc hmore, delivered_more readLen n ps hc hmore,
      List.length_append, ← Nat.add_assoc]
    exact ih

def Progress.IsComplete : Progress → Prop
  | .complete _ => True
  | _ => False

/-- What the loop has done when it stops: the bytes received are in the buffer,
counted, and enough exactly when the loop is complete. -/
structure Collected (readwriteBuf readLen : ℕ) (ps : List Pass) (s : ReadState) (p : Progress) :
    Prop where
  memory : p.state.memory =
    store s.memory (readwriteBuf+s.numBytesRead.toNat) (received readLen s.numBytesRead.toNat ps)
  count : p.state.numBytesRead.toNat = delivered readLen s.numBytesRead.toNat ps
  complete : Progress.IsComplete p ↔ readLen ≤ delivered readLen s.numBytesRead.toNat ps

theorem readLoop_collected (readwriteBuf : ℕ) (readLen : BitVec 16) (ps : List Pass)
    (s : ReadState) (hn : s.numBytesRead.toNat < readLen.toNat)
    (hroom : delivered readLen.toNat s.numBytesRead.toNat ps < 2^16) :
    Collected readwriteBuf readLen.toNat ps s (readLoop readwriteBuf readLen ps s) := by
  generalize hs : s.numBytesRead.toNat = n at hn hroom
  induction n, ps using delivered.induct readLen.toNat generalizing s with
  | case1 n =>
    constructor
    case memory => exact (store_nil _ _).symm
    case count => rfl
    case complete => exact iff_of_false id (by simpa [delivered, hs] using hn)
  | case2 n p ps hc =>
    subst hs
    have hd := delivered_end readLen.toNat s.numBytesRead.toNat ps hc
    have hstate := readLoop_end_state readwriteBuf readLen p ps s hc
    constructor
    case memory =>
      rw [hstate, received_end _ _ ps hc]
      exact (store_nil _ _).symm
    case count => rw [hstate, hd]
    case complete =>
      rw [hd]
      apply iff_of_false _ (not_le.mpr hn)
      rcases readLoop_end readwriteBuf readLen p ps s hc with hend | hend
      · rw [hend]
        exact id
      · rw [hend]
        exact id
  | case3 n p ps hc ih =>
    subst hs
    have hd := delivered_idle readLen.toNat s.numBytesRead.toNat ps hc
    rw [hd] at hroom
    have htail := ih s rfl hn hroom
    rw [readLoop_idle readwriteBuf readLen p ps s hc]
    constructor
    case memory => rw [received_idle _ _ ps hc, htail.memory]
    case count => rw [hd, htail.count]
    case complete => rw [hd, htail.complete]
  | case4 n p ps b bs hc _ hdone =>
    subst hs
    have hd := delivered_last _ _ ps hc hdone
    rw [hd] at hroom
    rw [readLoop_last readwriteBuf readLen p ps s b bs hc hroom hdone]
    constructor
    case memory =>
      rw [received_last _ _ ps hc hdone]
      rfl
    case count =>
      rw [hd]
      exact receive_count readwriteBuf s (b::bs) hroom
    case complete => exact iff_of_true trivial (by rwa [hd])
  | case5 n p ps b bs hc _ hmore ih =>
    subst hs
    have hd := delivered_more _ _ ps hc hmore
    rw [hd] at hroom
    have htotal := received_length readLen.toNat (s.numBytesRead.toNat+(b::bs).length) ps
    have hfits : s.numBytesRead.toNat+(b::bs).length < 2^16 := by omega
    have hcount := receive_count readwriteBuf s (b::bs) hfits
    have htail := ih (receive readwriteBuf s (b::bs)) hcount (not_le.mp hmore) hroom
    rw [readLoop_more readwriteBuf readLen p ps s b bs hc hfits hmore]
    constructor
    case memory =>
      have hbytes : (receive readwriteBuf s (b::bs)).memory =
        store s.memory (readwriteBuf+s.numBytesRead.toNat) (b::bs) := rfl
      rw [htail.memory, received_more _ _ ps hc hmore, hbytes, hcount, ← Nat.add_assoc,
        store_append]
    case count => rw [hd, ← hcount, htail.count]
    case complete => rw [hd, ← hcount, htail.complete]

/-! ## Calls that return -/

/-- No answer of the kernel is missing: every read is answered with what was asked for at
most, and a timeout or enough bytes end the loop. -/
structure Finishes (readLen : ℕ) (ps : List Pass) : Prop where
  bounded : ReadsBounded ps
  answered : ∀ p ∈ ps, p.chunk = none → p.select.retVal = 0
  ended : (∃ p ∈ ps, p.select.retVal = 0) ∨ readLen ≤ delivered readLen 0 ps

theorem readLoop_timeout (readwriteBuf : ℕ) (readLen : BitVec 16) {ps : List Pass}
    (h : ∀ p ∈ ps, p.chunk = none → p.select.retVal = 0) (ht : ∃ p ∈ ps, p.select.retVal = 0)
    (s s' : ReadState) : readLoop readwriteBuf readLen ps s ≠ .waiting s' := by
  induction ps generalizing s with
  | nil =>
    obtain ⟨p, hp, -⟩ := ht
    exact absurd hp List.not_mem_nil
  | cons p ps ih =>
    by_cases hzero : p.select.retVal = 0
    · rw [readLoop, if_pos hzero]
      exact fun heq => by cases heq
    · have hrest : ∀ u, readLoop readwriteBuf readLen ps u ≠ .waiting s' := by
        obtain ⟨q, hq, hq0⟩ := ht
        rcases List.mem_cons.mp hq with rfl | hq
        · exact absurd hq0 hzero
        · exact ih (fun q hq => h q (List.mem_cons_of_mem p hq)) ⟨q, hq, hq0⟩
      cases hc : p.chunk with
      | none => exact absurd (h p List.mem_cons_self hc) hzero
      | some chunk =>
        cases chunk with
        | nil =>
          rw [readLoop_idle readwriteBuf readLen p ps s hc]
          exact hrest s
        | cons b bs =>
          rw [readLoop_chunk readwriteBuf readLen p ps s b bs hc]
          split_ifs
          · exact fun heq => by cases heq
          · exact hrest _

end Wingray.WhisperRaw
