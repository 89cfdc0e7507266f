import Wingray.BitAssembly
import Wingray.CellMemory
import Wingray.CrcRegister

/-!
# The frame check of the dock authentication chip

Bytes enter the check least significant bit first while the register moves
towards its most significant bit. A frame carries the check word of its other
bytes in its last two bytes, low byte first. The order of the bits inside the
check word does not matter to any of the detection results.
-/

set_option autoImplicit false

namespace Wingray.WhisperCrc
open Wingray.BitAssembly Wingray.CellMemory Wingray.CrcRegister

abbrev Byte := BitVec 8
abbrev Word := BitVec 16

def poly : Word := 0x8005

/-- One pass of the inner loop; `i` is the mask of the bit looked at. -/
def crcBit (byte : Byte) (crc i : Word) : Word :=
  let nbit : Byte := if byte &&& i.setWidth 8 ≠ 0 then 1 else 0
  let cbit : Byte := if 0x8000 &&& crc ≠ 0 then 1 else 0
  let crc := crc <<< 1
  if nbit ^^^ cbit ≠ 0 then crc ^^^ poly else crc

/-- The masks of `for (i = 0x1; i < 0x100; i <<= 1)`. -/
def masks : List Word := [0x1, 0x2, 0x4, 0x8, 0x10, 0x20, 0x40, 0x80]

def crcByte (crc : Word) (byte : Byte) : Word := masks.foldl (crcBit byte) crc

def crcBytes (bytes : List Byte) : Word := bytes.foldl crcByte 0x0000

def shacCalculateCrc (m : Memory Byte) (data : ℕ) (count : Byte) : Word :=
  crcBytes (slice m data count.toNat)

def loadWord (m : Memory Byte) (a : ℕ) : Word := m (a+1) ++ m a

def storeWord (m : Memory Byte) (a : ℕ) (w : Word) : Memory Byte :=
  store m a [w.setWidth 8, (w >>> 8).setWidth 8]

/-- The comparison that ends a pass of the receive loop. -/
def frameCheck (m : Memory Byte) (rxBuffer : ℕ) (rxSize : Byte) : Bool :=
  let countMinusCrc := rxSize-2
  loadWord m (rxBuffer+countMinusCrc.toNat) == shacCalculateCrc m rxBuffer countMinusCrc

/-! ## Bytes as register input -/

def byteBits (byte : Byte) : List Bool := (List.range 8).map byte.getLsbD

theorem masks_eq : masks = (List.range 8).map (BitVec.twoPow 16) := by decide

theorem mask_low (k : ℕ) (hk : k < 8) : (BitVec.twoPow 16 k).setWidth 8 = BitVec.twoPow 8 k := by
  interval_cases k <;> rfl

theorem crcBit_feed (byte : Byte) (crc : Word) (k : ℕ) (hk : k < 8) :
    crcBit byte crc (BitVec.twoPow 16 k) = feed poly crc (byte.getLsbD k) := by
  have hn := and_mask_ne_zero byte k hk
  have hc : 0x8000 &&& crc ≠ 0 ↔ crc.msb = true := by
    rw [BitVec.and_comm, BitVec.msb_eq_getLsbD_last]
    exact and_mask_ne_zero crc 15 (by decide)
  simp only [crcBit, feed, mask_low k hk, hn, hc]
  cases byte.getLsbD k <;> cases crc.msb <;> simp

theorem crcByte_feeds (crc : Word) (byte : Byte) :
    crcByte crc byte = feeds poly crc (byteBits byte) := by
  rw [crcByte, masks_eq, feeds, byteBits, List.foldl_map, List.foldl_map]
  apply List.foldl_ext
  intro r k hk
  exact crcBit_feed byte r k (List.mem_range.mp hk)

theorem crcBytes_feeds (bytes : List Byte) :
    crcBytes bytes = feeds poly 0 (bytes.flatMap byteBits) := by
  suffices h : ∀ crc, bytes.foldl crcByte crc = feeds poly crc (bytes.flatMap byteBits) from h 0
  induction bytes with
  | nil => intro crc; rfl
  | cons byte bytes ih =>
    intro crc
    rw [List.foldl_cons, ih, crcByte_feeds, List.flatMap_cons, feeds_append]

/-! ## Frames as one word -/

/-- Bit `p` of a frame, each byte taken least significant bit first. -/
def frameBit (m : Memory Byte) (rxBuffer p : ℕ) : Bool := (m (rxBuffer+p/8)).getLsbD (p%8)

theorem slice_bits (m : Memory Byte) (rxBuffer n : ℕ) :
    (slice m rxBuffer n).flatMap byteBits = (List.range (8*n)).map (frameBit m rxBuffer) := by
  induction n with
  | zero => rfl
  | succ n ih =>
    have hbyte : byteBits (m (rxBuffer+n)) =
        (List.range 8).map (fun k => frameBit m rxBuffer (8*n+k)) := by
      apply List.map_congr_left
      intro k hk
      have hk' := List.mem_range.mp hk
      rw [frameBit, show (8*n+k)/8 = n by omega, show (8*n+k)%8 = k by omega]
    rw [slice_succ, List.flatMap_append, ih, Nat.mul_succ, List.range_add, List.map_append,
      List.map_map]
    simpa [Function.comp_def] using hbyte

theorem loadWord_bit (m : Memory Byte) (a i : ℕ) (hi : i < 16) :
    (loadWord m a).getLsbD i = (m (a+i/8)).getLsbD (i%8) := by
  rw [loadWord, BitVec.getLsbD_append]
  split
  · rename_i h
    rw [show i/8 = 0 by omega, show i%8 = i by omega, Nat.add_zero]
  · rename_i h
    rw [show i/8 = 1 by omega, show i%8 = i-8 by omega]

/-- The order in which the bits of a frame with `n` bytes before the check
word enter the register when the check word follows its data. -/
def entryOrder (n : ℕ) : List ℕ := List.range (8*n) ++ ((List.range 16).map (8*n+·)).reverse

theorem entryOrder_perm (n : ℕ) : (entryOrder n).Perm (List.range (8*n+16)) := by
  rw [List.range_add, entryOrder]
  exact List.Perm.append_left _ (List.reverse_perm _)

theorem entryOrder_length (n : ℕ) : (entryOrder n).length = 8*n+16 := by
  simpa using (entryOrder_perm n).length_eq

theorem entryOrder_data (n i : ℕ) (hl : i < (entryOrder n).length) (hi : i < 8*n) :
    (entryOrder n)[i] = i := by
  simp [entryOrder, hi]

theorem entryOrder_check (n i : ℕ) (hi : i < (entryOrder n).length) (h : 8*n ≤ i) :
    8*n ≤ (entryOrder n)[i] := by
  have hmem : (entryOrder n)[i] ∈ ((List.range 16).map (8*n+·)).reverse := by
    simp only [entryOrder]
    rw [List.getElem_append_right (by simpa using h)]
    exact List.getElem_mem _
  simp only [List.mem_reverse, List.mem_map] at hmem
  obtain ⟨k, _, hk⟩ := hmem
  omega

theorem check_bits (m : Memory Byte) (rxBuffer n : ℕ) :
    leadingBits (loadWord m (rxBuffer+n)) 16 =
      (((List.range 16).map (8*n+·)).reverse).map (frameBit m rxBuffer) := by
  apply List.ext_getElem
  · simp [leadingBits]
  · intro i hi hj
    have hi' : i < 16 := by simpa [leadingBits] using hi
    simp only [leadingBits, List.getElem_map, List.getElem_range, List.getElem_reverse,
      List.length_map, List.length_range]
    rw [loadWord_bit m _ _ (by omega), frameBit]
    rw [show (8*n+(16-1-i))/8 = n+(16-1-i)/8 by omega,
      show (8*n+(16-1-i))%8 = (16-1-i)%8 by omega, Nat.add_assoc]

theorem poly_low_bit : poly.getLsbD 0 = true := by decide

/-- The frame check accepts exactly the frames whose bits, entered in order,
leave the register empty. -/
theorem frameCheck_iff (m : Memory Byte) (rxBuffer : ℕ) (rxSize : Byte) (h : 2 ≤ rxSize.toNat) :
    frameCheck m rxBuffer rxSize = true ↔
      feeds poly 0#16 ((entryOrder (rxSize.toNat-2)).map (frameBit m rxBuffer)) = 0#16 := by
  have hsize : (rxSize-2).toNat = rxSize.toNat-2 := by
    have h2 : (2#8).toNat ≤ rxSize.toNat := h
    exact BitVec.toNat_sub_of_le h2
  rw [frameCheck, shacCalculateCrc, hsize, beq_iff_eq, crcBytes_feeds, slice_bits, entryOrder,
    List.map_append, ← check_bits]
  exact (check_word_iff poly poly_low_bit _ _).symm

theorem zipWith_map_self (f g : ℕ → Bool) (l : List ℕ) :
    List.zipWith xor (l.map f) (l.map g) = l.map (fun p => f p ^^ g p) := by
  induction l with
  | nil => rfl
  | cons p l ih => simp [ih]

theorem count_range (f : ℕ → Bool) (n : ℕ) :
    ((List.range n).map f).count true = ((Finset.range n).filter (fun p => f p = true)).card := by
  induction n with
  | zero => rfl
  | succ n ih =>
    rw [List.range_succ, List.map_append, List.count_append, ih, Finset.range_add_one,
      Finset.filter_insert]
    cases hf : f n with
    | false => simp [hf]
    | true => simp [hf]

/-! ## Detected changes -/

/-- The bits in which two frames of `n` bytes differ. -/
def changedBits (m m' : Memory Byte) (rxBuffer n : ℕ) : Finset ℕ :=
  (Finset.range (8*n)).filter (fun p => frameBit m rxBuffer p ≠ frameBit m' rxBuffer p)

def Detectable (changed : Finset ℕ) (n : ℕ) : Prop :=
  changed.card = 1 ∨ changed.card = 2 ∨ Odd changed.card ∨
    (changed.Nonempty ∧ ∃ a, ∀ p ∈ changed, a ≤ p ∧ p < a+16 ∧ p < 8*(n-2))

theorem poly_parity : parityBelow poly 16 = true := by decide

/-- The idle register needs more steps to return than any frame has bits. -/
theorem poly_period : NeverReturns poly 2039 :=
  avoids_iterate poly (top 16) 2039 (top 16) (by decide +kernel)

theorem changed_feeds (m m' : Memory Byte) (rxBuffer : ℕ) (rxSize : Byte)
    (h : 2 ≤ rxSize.toNat) (hm : frameCheck m rxBuffer rxSize = true)
    (hm' : frameCheck m' rxBuffer rxSize = true) :
    feeds poly 0#16 ((entryOrder (rxSize.toNat-2)).map
      (fun p => frameBit m rxBuffer p ^^ frameBit m' rxBuffer p)) = 0#16 := by
  rw [frameCheck_iff m rxBuffer rxSize h] at hm
  rw [frameCheck_iff m' rxBuffer rxSize h] at hm'
  rw [← zipWith_map_self, ← BitVec.xor_self (x := 0#16), feeds_xor poly _ _ _ _ (by simp), hm, hm']

theorem changed_count (m m' : Memory Byte) (rxBuffer n : ℕ) :
    ((entryOrder n).map (fun p => frameBit m rxBuffer p ^^ frameBit m' rxBuffer p)).count true =
      (changedBits m m' rxBuffer (n+2)).card := by
  rw [((entryOrder_perm n).map _).count_eq true, count_range, changedBits,
    show 8*(n+2) = 8*n+16 by omega]
  congr 1
  apply Finset.filter_congr
  intro p _
  cases frameBit m rxBuffer p <;> cases frameBit m' rxBuffer p <;> simp

theorem changed_mem (m m' : Memory Byte) (rxBuffer n p : ℕ) (hp : p < 8*n) :
    (frameBit m rxBuffer p ^^ frameBit m' rxBuffer p) = true ↔
      p ∈ changedBits m m' rxBuffer n := by
  simp [changedBits, hp]

/-- No frame that differs from a checked one in one or two bits, in an odd
number of bits, or inside one short run of data bits passes the check. -/
theorem corruption_detected (m m' : Memory Byte) (rxBuffer : ℕ) (rxSize : Byte)
    (h5 : 5 ≤ rxSize.toNat) (hm : frameCheck m rxBuffer rxSize = true)
    (hd : Detectable (changedBits m m' rxBuffer rxSize.toNat) rxSize.toNat) :
    frameCheck m' rxBuffer rxSize = false := by
  by_contra hpass
  have hm' : frameCheck m' rxBuffer rxSize = true := by simpa using hpass
  have hfeed := changed_feeds m m' rxBuffer rxSize (by omega) hm hm'
  have hcount := changed_count m m' rxBuffer (rxSize.toNat-2)
  rw [show rxSize.toNat-2+2 = rxSize.toNat by omega] at hcount
  rcases hd with hone | htwo | hodd | ⟨hne, a, hrun⟩
  · apply odd_detected poly poly_parity (by decide) _ _ hfeed
    rw [hcount, hone]
    exact odd_one
  · apply pair_detected poly poly_low_bit _ 2039 poly_period _ (hcount.trans htwo) hfeed
    have hlt := rxSize.isLt
    rw [List.length_map, entryOrder_length]
    omega
  · apply odd_detected poly poly_parity (by decide) _ _ hfeed
    rwa [hcount]
  · have hmem := changed_mem m m' rxBuffer rxSize.toNat
    apply burst_detected poly poly_low_bit _ a _ _ hfeed
    · intro i hi hbit
      rw [List.length_map, entryOrder_length] at hi
      rw [List.getElem_map] at hbit
      by_cases hdata : i < 8*(rxSize.toNat-2)
      · rw [entryOrder_data _ _ _ hdata] at hbit
        have hwin := hrun i ((hmem i (by omega)).mp hbit)
        omega
      · have hlen : i < (entryOrder (rxSize.toNat-2)).length := by rwa [entryOrder_length]
        have hpos : (entryOrder (rxSize.toNat-2))[i] < 8*rxSize.toNat := by
          have hr := (entryOrder_perm (rxSize.toNat-2)).mem_iff.mp (List.getElem_mem hlen)
          rw [List.mem_range] at hr
          omega
        have hwin := hrun _ ((hmem _ hpos).mp hbit)
        have hcheck := entryOrder_check _ i hlen (by omega)
        omega
    · obtain ⟨p, hp⟩ := hne
      have hwin := hrun p hp
      have hentry : p ∈ entryOrder (rxSize.toNat-2) := by
        rw [(entryOrder_perm _).mem_iff, List.mem_range]
        omega
      exact List.mem_map.mpr ⟨p, hentry, (hmem p (by omega)).mpr hp⟩

/-- Four bytes of a zone behind their count, with the check word. -/
def readFrame : Memory Byte := store (fun _ => 0) 0 [7, 1, 2, 3, 4, 0xF3, 0x28]

theorem corruption_detected_flip :
    frameCheck (store (store readFrame 3 [7]) 5 [0xF2]) 0 7 = false :=
  corruption_detected readFrame _ 0 7 (by decide) (by decide +kernel)
    (Or.inr (Or.inl (by decide +kernel)))

end Wingray.WhisperCrc
