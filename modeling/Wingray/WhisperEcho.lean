import Wingray.WhisperSend

/-!
# The echo of a command

The echo is decoded into the buffer that holds its raw bytes. A raw byte never
lies in front of the byte it belongs to, so it is read before it is overwritten.
-/

set_option autoImplicit false

namespace Wingray.WhisperEcho
open Wingray.CellMemory Wingray.WhisperCrc Wingray.WhisperExchange Wingray.WhisperSerial
open Wingray.WhisperRaw Wingray.WhisperReceive Wingray.WhisperSend

/-- Where the two coincide only the first cell begins with its own raw byte. -/
theorem in_place_readFirst (readwriteBuf j i : ℕ) : ReadFirst readwriteBuf readwriteBuf j i := by
  simp only [ReadFirst]
  omega

/-- Decoding in place gives the bytes that a separate buffer would receive. -/
theorem formatBytes_in_place (m : Memory Byte) (readwriteBuf byteData : ℕ) (lenData : BitVec 16)
    (hapart : byteData+formatted lenData ≤ readwriteBuf ∨
      readwriteBuf+8*formatted lenData ≤ byteData) :
    slice (formatBytes m readwriteBuf readwriteBuf lenData) readwriteBuf (formatted lenData) =
      slice (formatBytes m byteData readwriteBuf lenData) byteData (formatted lenData) := by
  have hseparate : ∀ j < formatted lenData, ∀ i < 8, ReadFirst byteData readwriteBuf j i := by
    intro j hj i hi
    simp only [ReadFirst]
    omega
  rw [formatBytes_slice _ _ _ _ (fun j _ i _ => in_place_readFirst readwriteBuf j i),
    formatBytes_slice _ _ _ _ hseparate]

theorem formatBytes_in_place_thirds :
    slice (formatBytes (fun a => if a%3 = 0 then 0x7F else 0) 0 0 16) 0 (formatted 16) =
      slice (formatBytes (fun a => if a%3 = 0 then 0x7F else 0) 600 0 16) 600 (formatted 16) :=
  formatBytes_in_place _ 0 600 16 (.inr (by decide))

section Echo

variable {readwriteBuf buffer : ℕ} {count : Byte} {writes : List Write} {echo : List Pass}
  {m : Memory Byte} {t : Sent}

theorem echo_decoded (h1 : 1 ≤ count.toNat) (hfits : FitsBuffer count echo)
    (henough : rawLength count ≤ (arrived count echo).length)
    (h : shapSendBytes readwriteBuf count (some buffer) writes echo m = some t) :
    slice t.memory readwriteBuf (count.toNat+1) = decode (arrived count echo) (count.toNat+1) := by
  obtain ⟨w, r, -, hr, rfl⟩ := sendBytes_inv h1 h
  have hlen := echoLen_toNat count
  have hdelivered := henough
  rw [arrived_length] at hdelivered
  have hpos : 0 < (BitVec.ofNat 16 (8*(count.toNat+1))).toNat := by
    rw [hlen]
    exact rawLength_pos
  obtain ⟨r', hr', -, hmemory⟩ := readFromDevice_whole readwriteBuf readwriteBuf 0 w.memory hpos
    (by rw [hlen]; exact fits_room hfits) (by rwa [hlen])
  obtain rfl := Option.some.inj (hr'.symm.trans hr)
  have hformatted := echo_formatted count
  have hdecode := formatBytes_decode readwriteBuf (cleared readwriteBuf w.memory).memory
    readwriteBuf 0 (arrived count echo)
    (BitVec.ofNat 16 (8*(count.toNat+1))-(0 : Byte).setWidth 16)
    (by rw [hformatted, Nat.zero_add]; exact henough)
    (fun j _ i _ => in_place_readFirst readwriteBuf j i)
  rw [hformatted, List.drop_zero] at hdecode
  show slice r'.memory _ _ = _
  rw [hmemory, hlen]
  exact hdecode

/-- A line that only returns what was written is read as ones. -/
theorem echo_ones {raw : List Byte} (h1 : 1 ≤ count.toNat) (hfits : FitsBuffer count echo)
    (hecho : arrived count echo = encoding (frame m buffer count.toNat) ++ raw)
    (h : shapSendBytes readwriteBuf count (some buffer) writes echo m = some t) :
    slice t.memory readwriteBuf (count.toNat+1) = List.replicate (count.toNat+1) 0xFF := by
  have hlength := frame_length m buffer count.toNat
  have henough : rawLength count ≤ (arrived count echo).length := by
    rw [hecho, List.length_append, encoding_length, hlength, rawLength]
    omega
  have hdecode := decode_encoding (frame m buffer count.toNat) raw
  rw [hlength] at hdecode
  rw [echo_decoded h1 hfits henough h, hecho, hdecode]

end Echo

end Wingray.WhisperEcho
