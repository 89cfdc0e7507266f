import Wingray.CrcPolynomial
import Wingray.WhisperCrc

/-!
# The frame check as a division

The check word of a buffer is the remainder of its bits, each byte least
significant bit first, by the generator of the check. A frame passes exactly
when the generator divides it.
-/

set_option autoImplicit false

namespace Wingray.WhisperRemainder
noncomputable section
open Wingray.CellMemory Wingray.CrcRegister Wingray.WhisperCrc
open Wingray.CrcPolynomial Polynomial

def generator : Binary := X^16+X^15+X^2+1

theorem divisor_poly : divisor poly = generator := by
  simp [divisor, wordPoly, Finset.sum_range_succ, poly, bit, generator]
  ring

def bufferPoly (m : Memory Byte) (data count : ℕ) : Binary :=
  messagePoly ((slice m data count).flatMap byteBits)

theorem calculateCrc_bits (m : Memory Byte) (data : ℕ) (count : Byte) :
    shacCalculateCrc m data count =
      feeds poly 0#16 ((List.range (8*count.toNat)).map (frameBit m data)) := by
  rw [shacCalculateCrc, crcBytes_feeds, slice_bits]
  rfl

theorem calculateCrc_poly (m : Memory Byte) (data : ℕ) (count : Byte) :
    wordPoly (shacCalculateCrc m data count) =
      (bufferPoly m data count.toNat*X^16) %ₘ generator := by
  rw [calculateCrc_bits, feeds_remainder, divisor_poly, bufferPoly, slice_bits]

theorem frameBit_xor {m m' m'' : Memory Byte} {data data' data'' n : ℕ}
    (h : ∀ i < n, m'' (data''+i) = m (data+i) ^^^ m' (data'+i)) (p : ℕ) (hp : p < 8*n) :
    frameBit m'' data'' p = (frameBit m data p ^^ frameBit m' data' p) := by
  simp only [frameBit]
  rw [h (p/8) (by omega), BitVec.getLsbD_xor]

theorem calculateCrc_xor {m m' m'' : Memory Byte} {data data' data'' : ℕ} {count : Byte}
    (h : ∀ i < count.toNat, m'' (data''+i) = m (data+i) ^^^ m' (data'+i)) :
    shacCalculateCrc m'' data'' count =
      shacCalculateCrc m data count ^^^ shacCalculateCrc m' data' count := by
  have hbits : (List.range (8*count.toNat)).map (frameBit m'' data'') =
      (List.range (8*count.toNat)).map (fun p => frameBit m data p ^^ frameBit m' data' p) := by
    apply List.map_congr_left
    intro p hp
    exact frameBit_xor h p (List.mem_range.mp hp)
  simp only [calculateCrc_bits]
  rw [← feeds_xor poly _ _ _ _ (by simp), BitVec.xor_self, zipWith_map_self, hbits]

/-- The check word is the remainder by the generator, and so the check word of
a sum is the sum of the check words. -/
theorem calculateCrc_remainder (m : Memory Byte) (data : ℕ) (count : Byte) :
    wordPoly (shacCalculateCrc m data count) =
      (bufferPoly m data count.toNat*X^16) %ₘ generator ∧
    ∀ (m' m'' : Memory Byte) (data' data'' : ℕ),
      (∀ i < count.toNat, m'' (data''+i) = m (data+i) ^^^ m' (data'+i)) →
      shacCalculateCrc m'' data'' count =
        shacCalculateCrc m data count ^^^ shacCalculateCrc m' data' count :=
  ⟨calculateCrc_poly m data count, fun _ _ _ _ h => calculateCrc_xor h⟩

theorem calculateCrc_remainder_sum :
    shacCalculateCrc (store (fun _ => 0) 0 [0x0F, 0xF0]) 0 2 =
      shacCalculateCrc (store (fun _ => 0) 4 [0x0C, 0x30]) 4 2 ^^^
        shacCalculateCrc (store (fun _ => 0) 6 [0x03, 0xC0]) 6 2 :=
  (calculateCrc_remainder _ 4 2).2 _ _ 6 0 (by decide +kernel)

/-- The bits of a frame in the order in which they are divided. -/
def framePoly (m : Memory Byte) (rxBuffer n : ℕ) : Binary :=
  messagePoly ((entryOrder n).map (frameBit m rxBuffer))

/-- A response is accepted exactly if its bits, check word and all, are a multiple of
the generator. -/
theorem frameCheck_divides (m : Memory Byte) (rxBuffer : ℕ) (rxSize : Byte)
    (h : 2 ≤ rxSize.toNat) :
    frameCheck m rxBuffer rxSize = true ↔ generator ∣ framePoly m rxBuffer (rxSize.toNat-2) := by
  rw [frameCheck_iff m rxBuffer rxSize h, ← divisor_poly]
  exact feeds_zero_iff poly poly_low_bit (by decide) _

theorem frameCheck_divides_response :
    generator ∣ framePoly (store (fun _ => 0) 0 [7, 1, 2, 3, 4, 0xF3, 0x28]) 0 5 :=
  (frameCheck_divides _ 0 7 (by decide)).mp (by decide +kernel)

end

end Wingray.WhisperRemainder
