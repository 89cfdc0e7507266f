import Wingray.WhisperReceive

/-!
# Sending a command

`SHAP_SendBytes` makes room for the command token by shifting the command in the
caller's buffer, writes it once and reads the echo back. It reports a success
whatever became of either.
-/

set_option autoImplicit false

namespace Wingray.WhisperSend
open Wingray.CellMemory Wingray.WhisperCrc Wingray.WhisperExchange Wingray.WhisperSerial
open Wingray.WhisperRaw Wingray.WhisperReceive

def cmdStr : Byte := 0x77

structure Sent where
  status : Status
  memory : Memory Byte
  handed : List Byte
  taken : List Byte

def framed (m : Memory Byte) (buffer count : ℕ) : Memory Byte :=
  store (copy m (buffer+1) buffer count) buffer [cmdStr]

def shapSendBytes (readwriteBuf : ℕ) (count : Byte) (buffer : Option ℕ) (writes : List Write)
    (echo : List Pass) (m : Memory Byte) : Option Sent :=
  match buffer with
  | none => some ⟨shaBadParam, m, [], []⟩
  | some buffer =>
    if count = 0 then some ⟨shaBadParam, m, [], []⟩
    else
      match writeToDevice readwriteBuf buffer (count+1) writes (framed m buffer count.toNat) with
      | none => none
      | some w =>
        (readFromDevice readwriteBuf readwriteBuf (BitVec.ofNat 16 (8*(count.toNat+1))) 0 echo
            w.memory).map
          (fun r => ⟨shaSuccess, r.memory, w.handed, w.taken⟩)

def frame (m : Memory Byte) (buffer count : ℕ) : List Byte := cmdStr::slice m buffer count

theorem frame_length (m : Memory Byte) (buffer count : ℕ) :
    (frame m buffer count).length = count+1 := by
  simp [frame]

theorem framed_eq (m : Memory Byte) (buffer count : ℕ) :
    framed m buffer count = store m buffer (frame m buffer count) := by
  rw [framed, copy, store_before]
  rfl

theorem framed_slice (m : Memory Byte) (buffer count : ℕ) :
    slice (framed m buffer count) buffer (count+1) = frame m buffer count := by
  rw [framed_eq, ← frame_length m buffer count]
  exact slice_store m buffer (frame m buffer count)

section Send

variable {readwriteBuf buffer : ℕ} {count : Byte} {writes : List Write} {echo : List Pass}
  {m : Memory Byte} {t : Sent}

theorem sendBytes_inv (h1 : 1 ≤ count.toNat)
    (h : shapSendBytes readwriteBuf count (some buffer) writes echo m = some t) :
    ∃ w r, writeToDevice readwriteBuf buffer (count+1) writes (framed m buffer count.toNat) =
        some w ∧
      readFromDevice readwriteBuf readwriteBuf (BitVec.ofNat 16 (8*(count.toNat+1))) 0 echo
        w.memory = some r ∧ t = ⟨shaSuccess, r.memory, w.handed, w.taken⟩ := by
  have hne := length_ne_zero h1
  simp only [shapSendBytes, if_neg hne] at h
  cases hw : writeToDevice readwriteBuf buffer (count+1) writes (framed m buffer count.toNat) with
  | none =>
    rw [hw] at h
    cases h
  | some w =>
    rw [hw] at h
    obtain ⟨r, hr, rfl⟩ := Option.map_eq_some_iff.mp h
    exact ⟨w, r, rfl, hr, rfl⟩

theorem echoLen_toNat (count : Byte) :
    (BitVec.ofNat 16 (8*(count.toNat+1))).toNat = rawLength count := by
  have hlt := count.isLt
  rw [BitVec.toNat_ofNat, rawLength]
  omega

/-- A call returns once its write is answered and the read of its echo is ended. -/
theorem send_returns (h1 : 1 ≤ count.toNat) (hwrites : writeRetried writes ≠ none)
    (hecho : Finishes (rawLength count) echo) :
    ∃ t, shapSendBytes readwriteBuf count (some buffer) writes echo m = some t := by
  have hlt := count.isLt
  have hlen := echoLen_toNat count
  have hne := length_ne_zero h1
  obtain ⟨w, hw⟩ := writeToDevice_returns readwriteBuf buffer (count+1)
    (framed m buffer count.toNat) hwrites
  obtain ⟨r, hr⟩ := readFromDevice_returns readwriteBuf readwriteBuf 0 w.memory
    (by rw [hlen]; exact rawLength_pos) (by rw [hlen, rawLength]; omega) (by rwa [hlen])
  simp only [shapSendBytes, if_neg hne, hw]
  exact ⟨_, Option.map_eq_some_iff.mpr ⟨r, hr, rfl⟩⟩

theorem succ_toNat (count : Byte) :
    (count+1).toNat = if count.toNat = 255 then 0 else count.toNat+1 := by
  have hlt := count.isLt
  rw [BitVec.toNat_add]
  have hone : (1 : Byte).toNat = 1 := rfl
  rw [hone]
  split_ifs <;> omega

theorem encoding_ne_nil (b : Byte) (bytes : List Byte) : encoding (b::bytes) ≠ [] := by
  intro h
  have hlength := encoding_length (b::bytes)
  rw [h, List.length_cons] at hlength
  simp at hlength

/-- The first write that is not interrupted takes at least `n` bytes. -/
def Takes (writes : List Write) (n : ℕ) : Prop :=
  ∃ nwritten, writeRetried writes = some (.accepted nwritten) ∧ n ≤ nwritten

theorem takenOf_nil (writes : List Write) : takenOf writes [] = [] := by
  rw [takenOf]
  split
  · exact List.take_nil
  · rfl

theorem takenOf_all {raw : List Byte} (hne : raw ≠ []) :
    takenOf writes raw = raw ↔ Takes writes raw.length := by
  rw [takenOf, Takes]
  split
  next nwritten hr => simp [hr, List.take_eq_self_iff]
  next hother =>
    apply iff_of_false (fun he => hne he.symm)
    rintro ⟨nwritten, hr, _⟩
    exact hother nwritten hr

/-- A call that returns has delivered its frame exactly when the command is of
63 bytes at most and the driver took all of the raw bytes at once. -/
theorem send_delivered_iff (h1 : 1 ≤ count.toNat)
    (hapart : Apart readwriteBuf buffer (count.toNat+1))
    (h : shapSendBytes readwriteBuf count (some buffer) writes echo m = some t) :
    (t.status = shaSuccess → t.taken = encoding (frame m buffer count.toNat)) ↔
      count.toNat ≤ 63 ∧ Takes writes (8*(count.toNat+1)) := by
  obtain ⟨w, r, hw, _, rfl⟩ := sendBytes_inv h1 h
  have hlen := succ_toNat count
  have hne : encoding (frame m buffer count.toNat) ≠ [] := encoding_ne_nil _ _
  have hdata : ∀ i < (count+1).toNat,
      buffer+i < readwriteBuf ∨ readwriteBuf+maxBufLen ≤ buffer+i := by
    intro i hi
    simp only [Apart] at hapart
    split_ifs at hlen <;> omega
  simp only [forall_const]
  rcases writeToDevice_cases hdata hw with
    ⟨hlarge, _, _, htaken⟩ | ⟨hsmall, _, _, htaken⟩
  · -- the frame does not fit into the transfer buffer and nothing is written
    rw [htaken]
    apply iff_of_false (fun he => hne he.symm)
    rintro ⟨h63, _⟩
    simp only [maxBufLen] at hlarge
    split_ifs at hlen <;> omega
  · rw [htaken]
    by_cases h255 : count.toNat = 255
    · -- the length is 0 in the eight bits it is passed in
      rw [hlen, if_pos h255]
      apply iff_of_false
      · intro he
        exact hne (he.symm.trans (takenOf_nil writes))
      · rintro ⟨h63, _⟩
        omega
    · rw [if_neg h255] at hlen
      simp only [maxBufLen] at hsmall
      have hsize : (encoding (frame m buffer count.toNat)).length = 8*(count.toNat+1) := by
        rw [encoding_length, frame_length]
      rw [hlen, framed_slice, takenOf_all hne, hsize, and_iff_right (by omega)]

end Send

def command : Memory Byte := fun a => if a = 2000 then 5 else 0

theorem send_delivered_short : ∃ t,
    shapSendBytes 0 1 (some 2000) [.interrupted, .accepted 16] [timeoutPass] command = some t ∧
    ((t.status = shaSuccess → t.taken = encoding (frame command 2000 (1 : Byte).toNat)) ↔
      (1 : Byte).toNat ≤ 63 ∧
        Takes [.interrupted, .accepted 16] (8*((1 : Byte).toNat+1))) :=
  ⟨_, rfl, send_delivered_iff (by decide) (.inr (by decide))
    (show shapSendBytes 0 1 (some 2000) [.interrupted, .accepted 16] [timeoutPass] command =
      some _ from rfl)⟩

/-- The write fails, nothing is delivered, and the call reports a success. -/
theorem failed_write_reported_sent : ∃ t,
    shapSendBytes 0 1 (some 2000) [.failed] [timeoutPass] command = some t ∧
      t.status = shaSuccess ∧ t.taken = [] ∧ t.taken ≠ encoding (frame command 2000 1) :=
  ⟨_, rfl, rfl, rfl, by decide +kernel⟩

/-! ## Sending again -/

section Resending

variable {readwriteBuf buffer : ℕ} {count : Byte} {writes : List Write} {echo : List Pass}
  {m : Memory Byte} {t : Sent}

/-- The caller's buffer is none of the memory the call writes to besides: the
transfer buffer and the bytes behind it that the echo reaches. -/
structure Separate (readwriteBuf buffer : ℕ) (count : Byte) (echo : List Pass) : Prop where
  apart : Apart readwriteBuf buffer (count.toNat+1)
  bounded : ReadsBounded echo
  missed : buffer+(count.toNat+1) ≤ readwriteBuf ∨
    readwriteBuf+delivered (rawLength count) 0 echo ≤ buffer

theorem echo_formatted (count : Byte) :
    formatted (BitVec.ofNat 16 (8*(count.toNat+1))-(0 : Byte).setWidth 16) = count.toNat+1 := by
  have hlt := count.isLt
  have hzero : (0 : Byte).setWidth 16 = 0#16 := by decide
  apply formatted_eq _ _ (by omega)
  rw [hzero, BitVec.sub_zero]
  exact echoLen_toNat count

theorem send_leaves_frame (h1 : 1 ≤ count.toNat) (h62 : count.toNat ≤ 62)
    (hs : Separate readwriteBuf buffer count echo)
    (h : shapSendBytes readwriteBuf count (some buffer) writes echo m = some t) :
    t.handed = encoding (frame m buffer count.toNat) ∧
      slice t.memory buffer (count.toNat+1) = frame m buffer count.toNat := by
  obtain ⟨w, r, hw, hr, rfl⟩ := sendBytes_inv h1 h
  obtain ⟨hapart, hbounded, hmissed⟩ := hs
  simp only [Apart, maxBufLen] at hapart
  have hlen : (count+1).toNat = count.toNat+1 := by
    rw [succ_toNat, if_neg (by omega)]
  have hecho := echoLen_toNat count
  have hroom := delivered_le (rawLength count) 0 echo hbounded (Nat.zero_le _)
  have hsize : rawLength count = 8*(count.toNat+1) := rfl
  have hdata : ∀ i < (count+1).toNat,
      buffer+i < readwriteBuf ∨ readwriteBuf+maxBufLen ≤ buffer+i := by
    intro i hi
    simp only [maxBufLen]
    omega
  rcases writeToDevice_cases hdata hw with ⟨hlarge, _⟩ | ⟨hsmall, hmemory, hhanded, _⟩
  · simp only [maxBufLen] at hlarge
    omega
  · simp only [maxBufLen] at hroom
    rw [hlen, framed_slice] at hmemory hhanded
    refine ⟨hhanded, ?_⟩
    rw [← framed_slice]
    apply slice_congr
    intro i hi
    show r.memory (buffer+i) = _
    rw [readFromDevice_frame (by omega) (by rw [hecho]; omega) hr (buffer+i)
      (by simp only [maxBufLen]; omega) (by rw [hecho]; omega) (by rw [echo_formatted count]; omega),
      hmemory]
    apply store_outside
    rw [encoding_length, frame_length]
    omega

end Resending

theorem take_cons_self {α : Type*} (x : α) (xs : List α) :
    (x::xs).take xs.length = xs ↔ ∀ y ∈ xs, y = x := by
  induction xs generalizing x with
  | nil => simp
  | cons y ys ih =>
    rw [List.length_cons, List.take_succ_cons, List.cons.injEq, List.forall_mem_cons]
    constructor
    · rintro ⟨rfl, h⟩
      exact ⟨rfl, (ih x).mp h⟩
    · rintro ⟨rfl, h⟩
      exact ⟨rfl, (ih y).mpr h⟩

/-- Both of two calls hand over the same raw bytes, and each leaves the command
in the caller's buffer as it found it. -/
structure Resendable (buffer count : ℕ) (m : Memory Byte) (t t' : Sent) : Prop where
  same : t'.handed = t.handed
  first_kept : slice t.memory buffer count = slice m buffer count
  second_kept : slice t'.memory buffer count = slice t.memory buffer count

section Resend

variable {readwriteBuf buffer : ℕ} {count : Byte} {writes writes' : List Write}
  {echo echo' : List Pass} {m : Memory Byte} {t t' : Sent}

theorem send_leaves_start (h1 : 1 ≤ count.toNat) (h62 : count.toNat ≤ 62)
    (hs : Separate readwriteBuf buffer count echo)
    (h : shapSendBytes readwriteBuf count (some buffer) writes echo m = some t) :
    slice t.memory buffer count.toNat = (frame m buffer count.toNat).take count.toNat := by
  have hframe := (send_leaves_frame h1 h62 hs h).2
  rw [slice_succ] at hframe
  rw [← hframe, List.take_left' (slice_length _ _ _)]

/-- A command can be sent again exactly when it consists of tokens. -/
theorem resendable_iff (h1 : 1 ≤ count.toNat) (h62 : count.toNat ≤ 62)
    (hs : Separate readwriteBuf buffer count echo)
    (hs' : Separate readwriteBuf buffer count echo')
    (h : shapSendBytes readwriteBuf count (some buffer) writes echo m = some t)
    (h' : shapSendBytes readwriteBuf count (some buffer) writes' echo' t.memory = some t') :
    Resendable buffer count.toNat m t t' ↔ ∀ b ∈ slice m buffer count.toNat, b = cmdStr := by
  have hstart := send_leaves_start h1 h62 hs h
  have hstart' := send_leaves_start h1 h62 hs' h'
  have hlength := slice_length m buffer count.toNat
  have htokens := take_cons_self cmdStr (slice m buffer count.toNat)
  rw [hlength] at htokens
  rw [← htokens]
  constructor
  · intro hr
    exact hstart.symm.trans hr.first_kept
  · intro hkept
    have hfirst : slice t.memory buffer count.toNat = slice m buffer count.toNat :=
      hstart.trans hkept
    have hframe : frame t.memory buffer count.toNat = frame m buffer count.toNat := by
      rw [frame, hfirst, frame]
    constructor
    case same =>
      rw [(send_leaves_frame h1 h62 hs' h').1, (send_leaves_frame h1 h62 hs h).1, hframe]
    case first_kept => exact hfirst
    case second_kept => rw [hstart', hframe, hstart]

end Resend

theorem timeout_separate : Separate 0 2000 1 [timeoutPass] where
  apart := .inr (by decide)
  bounded := by
    intro p hp bs hb
    rw [List.mem_singleton.mp hp] at hb
    exact absurd hb List.not_mem_nil
  missed := .inr (by decide)

theorem resendable_once : ∃ t t',
    shapSendBytes 0 1 (some 2000) [.accepted 16] [timeoutPass] command = some t ∧
    shapSendBytes 0 1 (some 2000) [.accepted 16] [timeoutPass] t.memory = some t' ∧
    (Resendable 2000 (1 : Byte).toNat command t t' ↔
      ∀ b ∈ slice command 2000 (1 : Byte).toNat, b = cmdStr) :=
  ⟨_, _, rfl, rfl, resendable_iff (by decide) (by decide) timeout_separate timeout_separate
    (show shapSendBytes 0 1 (some 2000) [.accepted 16] [timeoutPass] command = some _ from rfl)
    (show shapSendBytes 0 1 (some 2000) [.accepted 16] [timeoutPass] _ = some _ from rfl)⟩

/-- The second call sends the token for the command byte. -/
theorem resent_command_shifted : ∃ t t',
    shapSendBytes 0 1 (some 2000) [.accepted 16] [timeoutPass] command = some t ∧
    shapSendBytes 0 1 (some 2000) [.accepted 16] [timeoutPass] t.memory = some t' ∧
    t.handed = encoding [0x77, 5] ∧ t'.handed = encoding [0x77, 0x77] ∧
    ¬ Resendable 2000 1 command t t' := by
  refine ⟨_, _, rfl, rfl, by decide +kernel, by decide +kernel, ?_⟩
  intro hr
  have hkept := hr.first_kept
  revert hkept
  decide +kernel

end Wingray.WhisperSend
