import Wingray.CellMemory
import Wingray.GuardedRun

/-!
# Gathering playback for the echo canceller

The playback thread hands over its buffers, and each call of the capture thread
takes one frame from them. What is left when less than a frame remains waits in
a scratch buffer for the next call.
-/

set_option autoImplicit false

namespace Wingray.AudioDownlink
open Wingray.CellMemory Wingray.GuardedRun

abbrev Byte := BitVec 8

/-- `codingErrors` counts how often the code reports an error of its own. -/
structure AudioPostProcessor where
  mEcnsScratchBuf : Option (List Byte)
  mEcnsScratchBufSize : ℕ
  mEcnsOutBuf : Option (List Byte)
  mEcnsOutBufSize : ℕ
  mEcnsOutBufReadOffset : ℕ
  codingErrors : ℕ

def started : AudioPostProcessor := ⟨none, 0, none, 0, 0, 0⟩

def writeDownlinkEcns (s : AudioPostProcessor) (buffer : List Byte) : AudioPostProcessor := { s with
  mEcnsOutBuf := some buffer
  mEcnsOutBufSize := buffer.length
  mEcnsOutBufReadOffset := 0 }

/-- The object and the frame during a call; `dl_buf` holds whatever it held
before where nothing has been copied. -/
structure Gathering where
  post : AudioPostProcessor
  dl_buf : Memory Byte
  dl_buf_bytes : ℕ

def takeScratch (s : AudioPostProcessor) (bytes : ℕ) (dl_buf : Memory Byte) : Gathering :=
  match s.mEcnsScratchBuf with
  | none => ⟨s, dl_buf, 0⟩
  | some scratch =>
    if s.mEcnsScratchBufSize = 0 then ⟨s, dl_buf, 0⟩
    else
      let dl_buf_bytes := if s.mEcnsScratchBufSize > bytes then bytes else s.mEcnsScratchBufSize
      let size := s.mEcnsScratchBufSize-dl_buf_bytes
      { post := { s with
          mEcnsScratchBuf := if size = 0 then none else some scratch
          mEcnsScratchBufSize := size }
        dl_buf := store dl_buf 0 (scratch.take dl_buf_bytes)
        dl_buf_bytes := dl_buf_bytes }

def fresh (s : AudioPostProcessor) (n : ℕ) : List Byte :=
  ((s.mEcnsOutBuf.getD []).drop s.mEcnsOutBufReadOffset).take n

/-- The rest of the playback buffer goes to the scratch buffer, which should
not be there yet, and the playback thread may go on. -/
def release (s : AudioPostProcessor) : AudioPostProcessor :=
  let rest := s.mEcnsOutBufSize-s.mEcnsOutBufReadOffset
  { mEcnsScratchBuf := if rest > 0 then some (fresh s rest) else s.mEcnsScratchBuf
    mEcnsScratchBufSize := if rest > 0 then rest else s.mEcnsScratchBufSize
    mEcnsOutBuf := none
    mEcnsOutBufSize := 0
    mEcnsOutBufReadOffset := 0
    codingErrors := if s.mEcnsScratchBuf.isSome then s.codingErrors+1 else s.codingErrors }

def skip (s : AudioPostProcessor) (n : ℕ) : AudioPostProcessor :=
  { s with mEcnsOutBufReadOffset := s.mEcnsOutBufReadOffset+n }

def takeFresh (g : Gathering) (bytes : ℕ) : Gathering :=
  let s := g.post
  let bytes_to_copy := s.mEcnsOutBufSize-s.mEcnsOutBufReadOffset
  let bytes_to_copy :=
    if bytes_to_copy+g.dl_buf_bytes > bytes then bytes-g.dl_buf_bytes else bytes_to_copy
  let s' := skip s bytes_to_copy
  { post := if s'.mEcnsOutBufSize-s'.mEcnsOutBufReadOffset < bytes then release s' else s'
    dl_buf := store g.dl_buf g.dl_buf_bytes (fresh s bytes_to_copy)
    dl_buf_bytes := g.dl_buf_bytes+bytes_to_copy }

def pad (g : Gathering) (bytes : ℕ) : Gathering := { g with
  dl_buf := store g.dl_buf (2*(g.dl_buf_bytes/2)) (List.replicate (bytes-g.dl_buf_bytes) 0) }

/-- `applyUplinkEcns` as far as the echo canceller. -/
def applyUplinkEcns (s : AudioPostProcessor) (bytes : ℕ) (dl_buf : Memory Byte) : Gathering :=
  let g := takeScratch s bytes dl_buf
  let g := if g.dl_buf_bytes < bytes then takeFresh g bytes else g
  if g.dl_buf_bytes < bytes then pad g bytes else g

def Gathering.frame (g : Gathering) : List Byte := slice g.dl_buf 0 g.dl_buf_bytes

/-! ## Two threads -/

inductive Label
  | writeDownlink (buffer : List Byte)
  | applyUplink (bytes : ℕ) (dl_buf : Memory Byte)

/-- `handed` and `gathered` are history. -/
structure Session where
  post : AudioPostProcessor
  handed : List Byte
  gathered : List Byte

def silent : Session := ⟨started, [], []⟩

def step (s : Session) : Label → Option Session
  | .writeDownlink buffer => some { s with
      post := writeDownlinkEcns s.post buffer
      handed := s.handed ++ buffer }
  | .applyUplink bytes dl_buf =>
    let g := applyUplinkEcns s.post bytes dl_buf
    some { s with post := g.post, gathered := s.gathered ++ g.frame }

/-- A buffer is handed over after the one before has been released, and frames
are whole samples. -/
def Proper (s : Session) : Label → Prop
  | .writeDownlink _ => s.post.mEcnsOutBuf = none
  | .applyUplink bytes _ => 0 < bytes ∧ bytes%2 = 0

def held (s : AudioPostProcessor) : List Byte :=
  (s.mEcnsScratchBuf.getD []).take s.mEcnsScratchBufSize

def unread (s : AudioPostProcessor) : List Byte :=
  (s.mEcnsOutBuf.getD []).drop s.mEcnsOutBufReadOffset

def Conserved (s : Session) : Prop :=
  s.gathered ++ held s.post ++ unread s.post = s.handed

/-- What the scratch buffer keeps beyond a frame is what it began with, and an
odd byte of a frame that is not full is zero. -/
def Harmless (s : AudioPostProcessor) (bytes : ℕ) : Prop :=
  (bytes < (held s).length → (held s).take ((held s).length-bytes) = (held s).drop bytes) ∧
    ((held s ++ unread s).length < bytes → (held s ++ unread s).length%2 = 1 →
      (held s ++ unread s).getLast? = some 0)

def Kept (s : Session) : Label → Prop
  | .writeDownlink _ => True
  | .applyUplink bytes _ => Harmless s.post bytes

/-! ## One call -/

/-- The sizes agree with the buffers, there is a scratch buffer exactly while
something is in it, and the code has found no error of its own. -/
structure Sound (s : AudioPostProcessor) : Prop where
  scratch : s.mEcnsScratchBufSize ≤ (s.mEcnsScratchBuf.getD []).length
  filled : s.mEcnsScratchBuf.isSome = true ↔ s.mEcnsScratchBufSize ≠ 0
  out : s.mEcnsOutBufSize = (s.mEcnsOutBuf.getD []).length
  offset : s.mEcnsOutBufReadOffset ≤ s.mEcnsOutBufSize
  errors : s.codingErrors = 0

theorem started_sound : Sound started where
  scratch := le_refl 0
  filled := by simp [started]
  out := rfl
  offset := le_refl 0
  errors := rfl

section Calls

variable {s : AudioPostProcessor} {g : Gathering} {bytes : ℕ}

theorem Sound.held_length (h : Sound s) : (held s).length = s.mEcnsScratchBufSize := by
  rw [held, List.length_take]
  exact min_eq_left h.scratch

theorem Sound.unread_length (h : Sound s) :
    (unread s).length = s.mEcnsOutBufSize-s.mEcnsOutBufReadOffset := by
  rw [unread, List.length_drop, h.out]

theorem write_sound (h : Sound s) (buffer : List Byte) : Sound (writeDownlinkEcns s buffer) where
  scratch := h.scratch
  filled := h.filled
  out := rfl
  offset := Nat.zero_le _
  errors := h.errors

theorem store_frame (dl_buf : Memory Byte) (n : ℕ) (xs : List Byte) :
    slice (store dl_buf n xs) 0 (n+xs.length) = slice dl_buf 0 n ++ xs := by
  have hstart : store dl_buf n xs = store dl_buf 0 (slice dl_buf 0 n ++ xs) := by
    rw [← store_append, store_slice, slice_length, Nat.zero_add]
  have hlength : n+xs.length = (slice dl_buf 0 n ++ xs).length := by
    rw [List.length_append, slice_length]
  rw [hstart, hlength, slice_store]

structure FromScratch (s : AudioPostProcessor) (bytes : ℕ) (g : Gathering) : Prop where
  sound : Sound g.post
  frame : g.frame = (held s).take bytes
  count : g.dl_buf_bytes = min (held s).length bytes
  kept : held g.post = (held s).take ((held s).length-bytes)
  unread : unread g.post = unread s

def shortened (s : AudioPostProcessor) (n : ℕ) : AudioPostProcessor := { s with
  mEcnsScratchBuf := if n = 0 then none else s.mEcnsScratchBuf
  mEcnsScratchBufSize := n }

theorem shortened_sound (h : Sound s) {n : ℕ} (hn : n ≤ s.mEcnsScratchBufSize) :
    Sound (shortened s n) := by
  refine ⟨?_, ?_, h.out, h.offset, h.errors⟩
  · show n ≤ _
    simp only [shortened]
    split_ifs with hzero
    · exact hzero.le
    · exact hn.trans h.scratch
  · show (if n = 0 then none else s.mEcnsScratchBuf).isSome = true ↔ n ≠ 0
    split_ifs with hzero
    · exact iff_of_false Bool.false_ne_true (not_not_intro hzero)
    · exact iff_of_true (h.filled.mpr (by omega)) hzero

theorem shortened_held {n : ℕ} (hn : n ≤ s.mEcnsScratchBufSize) :
    held (shortened s n) = (held s).take n := by
  rw [held, held, List.take_take, min_eq_left hn]
  simp only [shortened]
  split_ifs with hzero
  · rw [hzero, List.take_zero, List.take_zero]
  · rfl

theorem Sound.scratch_none (h : Sound s) (hheld : held s = []) : s.mEcnsScratchBuf = none := by
  have hsize : s.mEcnsScratchBufSize = 0 := by rw [← h.held_length, hheld, List.length_nil]
  by_contra hne
  exact h.filled.mp (Option.isSome_iff_ne_none.mpr hne) hsize

theorem takeScratch_eq (h : Sound s) (bytes : ℕ) (dl_buf : Memory Byte) :
    takeScratch s bytes dl_buf =
      { post := shortened s (s.mEcnsScratchBufSize-bytes)
        dl_buf := store dl_buf 0 ((held s).take bytes)
        dl_buf_bytes := min s.mEcnsScratchBufSize bytes } := by
  by_cases hsize : s.mEcnsScratchBufSize = 0
  · have hheld : held s = [] := List.eq_nil_of_length_eq_zero (h.held_length.trans hsize)
    have hnone := h.scratch_none hheld
    have hsame : shortened s 0 = s := by rw [shortened, if_pos rfl, ← hnone, ← hsize]
    rw [takeScratch, hnone, hheld, hsize, Nat.zero_sub, Nat.zero_min, List.take_nil, store_nil,
      hsame]
  · obtain ⟨scratch, hscratch⟩ := Option.isSome_iff_exists.mp (h.filled.mpr hsize)
    have hheld : held s = scratch.take s.mEcnsScratchBufSize := by rw [held, hscratch]; rfl
    have hcount : (if s.mEcnsScratchBufSize > bytes then bytes else s.mEcnsScratchBufSize) =
        min s.mEcnsScratchBufSize bytes := by
      split_ifs <;> omega
    have hsizes : s.mEcnsScratchBufSize-min s.mEcnsScratchBufSize bytes =
        s.mEcnsScratchBufSize-bytes := by omega
    simp only [takeScratch, hscratch, if_neg hsize, hcount, hsizes, shortened, hheld,
      List.take_take, min_comm bytes]

theorem takeScratch_spec (h : Sound s) (bytes : ℕ) (dl_buf : Memory Byte) :
    FromScratch s bytes (takeScratch s bytes dl_buf) := by
  have hlength := h.held_length
  have hle : s.mEcnsScratchBufSize-bytes ≤ s.mEcnsScratchBufSize := Nat.sub_le _ _
  rw [takeScratch_eq h]
  constructor
  case sound => exact shortened_sound h hle
  case frame =>
    have hcount : ((held s).take bytes).length = min s.mEcnsScratchBufSize bytes := by
      rw [List.length_take, hlength, min_comm]
    have hframe := slice_store dl_buf 0 ((held s).take bytes)
    rw [hcount] at hframe
    exact hframe
  case count => rw [hlength]
  case kept => rw [hlength, shortened_held hle]
  case unread => rfl

theorem fresh_eq (h : Sound s) (n : ℕ) : fresh s n = (unread s).take n ∧
    (fresh s n).length = min n (s.mEcnsOutBufSize-s.mEcnsOutBufReadOffset) := by
  have heq : fresh s n = (unread s).take n := rfl
  exact ⟨heq, by rw [heq, List.length_take, h.unread_length]⟩

theorem held_nil (h : s.mEcnsScratchBuf = none) : held s = [] := by
  rw [held, h]
  exact List.take_nil

theorem release_spec (h : Sound s) (hscratch : s.mEcnsScratchBuf = none) :
    Sound (release s) ∧ held (release s) = unread s ∧ unread (release s) = [] := by
  have hlength := h.unread_length
  have hsize : s.mEcnsScratchBufSize = 0 := by
    by_contra hne
    have hsome := h.filled.mpr hne
    rw [hscratch] at hsome
    cases hsome
  have hfresh := (fresh_eq h (unread s).length).1
  rw [List.take_length] at hfresh
  by_cases hrest : (unread s).length > 0
  · have heq : release s = ⟨some (unread s), (unread s).length, none, 0, 0, 0⟩ := by
      simp only [release, ← hlength, if_pos hrest, hscratch, h.errors, hfresh]
      rfl
    rw [heq]
    refine ⟨⟨le_refl _, ?_, rfl, le_refl 0, rfl⟩, List.take_length, rfl⟩
    exact iff_of_true rfl hrest.ne'
  · have heq : release s = ⟨none, 0, none, 0, 0, 0⟩ := by
      simp only [release, ← hlength, if_neg hrest, hscratch, h.errors, hsize]
      rfl
    rw [heq]
    exact ⟨started_sound, (List.eq_nil_of_length_eq_zero (by omega)).symm, rfl⟩

structure FromFresh (g : Gathering) (bytes : ℕ) (g' : Gathering) : Prop where
  sound : Sound g'.post
  frame : g'.frame = g.frame ++ (unread g.post).take (bytes-g.dl_buf_bytes)
  count : g'.dl_buf_bytes = g.dl_buf_bytes+min (unread g.post).length (bytes-g.dl_buf_bytes)
  rest : held g'.post ++ unread g'.post = (unread g.post).drop (bytes-g.dl_buf_bytes)

theorem takeFresh_spec (h : Sound g.post) (hscratch : g.post.mEcnsScratchBuf = none)
    (hlt : g.dl_buf_bytes < bytes) : FromFresh g bytes (takeFresh g bytes) := by
  have hlength := h.unread_length
  have hoffset := h.offset
  have hcopied : (if g.post.mEcnsOutBufSize-g.post.mEcnsOutBufReadOffset+g.dl_buf_bytes > bytes
      then bytes-g.dl_buf_bytes else g.post.mEcnsOutBufSize-g.post.mEcnsOutBufReadOffset) =
      min (unread g.post).length (bytes-g.dl_buf_bytes) := by
    split_ifs <;> omega
  simp only [takeFresh, hcopied]
  generalize hn : min (unread g.post).length (bytes-g.dl_buf_bytes) = n
  obtain ⟨hfresh, hcount⟩ := fresh_eq h n
  rw [min_eq_left (by omega)] at hcount
  have htake : (unread g.post).take n = (unread g.post).take (bytes-g.dl_buf_bytes) :=
    List.take_eq_take_iff.mpr (by omega)
  have hdrop : (unread g.post).drop n = (unread g.post).drop (bytes-g.dl_buf_bytes) :=
    List.drop_eq_drop_iff.mpr (by omega)
  have hskip : Sound (skip g.post n) :=
    ⟨h.scratch, h.filled, h.out, by show _+n ≤ g.post.mEcnsOutBufSize; omega, h.errors⟩
  have hunread : unread (skip g.post n) = (unread g.post).drop n := List.drop_drop.symm
  constructor
  case sound =>
    show Sound (if _ then _ else _)
    split_ifs
    · exact (release_spec hskip hscratch).1
    · exact hskip
  case frame =>
    have hframe := store_frame g.dl_buf g.dl_buf_bytes (fresh g.post n)
    rw [hcount, hfresh, htake] at hframe
    rw [Gathering.frame, hfresh, htake]
    exact hframe
  case count => rw [hn]
  case rest =>
    rw [← hdrop, ← hunread]
    show held (if _ then _ else _) ++ unread (if _ then _ else _) = _
    split_ifs
    · obtain ⟨-, hheld, hnone⟩ := release_spec hskip hscratch
      rw [hheld, hnone, List.append_nil]
    · rw [held_nil (s := skip g.post n) hscratch, List.nil_append]

/-- The padding begins a byte early when that byte is the first of a sample. -/
theorem pad_frame (hlt : g.dl_buf_bytes < bytes) : (pad g bytes).frame = g.frame ↔
    (g.dl_buf_bytes%2 = 1 → g.frame.getLast? = some 0) := by
  have hbelow (n : ℕ) (hn : n ≤ 2*(g.dl_buf_bytes/2)) :
      slice (pad g bytes).dl_buf 0 n = slice g.dl_buf 0 n := by
    apply slice_congr
    intro i hi
    exact store_below _ _ _ _ (by omega)
  show slice (pad g bytes).dl_buf 0 g.dl_buf_bytes = slice g.dl_buf 0 g.dl_buf_bytes ↔
    (_ → (slice g.dl_buf 0 g.dl_buf_bytes).getLast? = _)
  by_cases hodd : g.dl_buf_bytes%2 = 1
  · obtain ⟨k, hk⟩ : ∃ k, g.dl_buf_bytes = 2*k+1 := ⟨g.dl_buf_bytes/2, by omega⟩
    have hzero : (pad g bytes).dl_buf (0+2*k) = 0 := by
      have hstart : 2*(g.dl_buf_bytes/2) = 2*k := by omega
      show store g.dl_buf (2*(g.dl_buf_bytes/2)) (List.replicate (bytes-g.dl_buf_bytes) 0) _ = 0
      rw [hstart, Nat.zero_add]
      exact (store_inside g.dl_buf (2*k) _ 0 (by rw [List.length_replicate]; omega)).trans
        (List.getElem_replicate _)
    rw [hk, slice_succ, slice_succ, hbelow _ (by omega), hzero, List.getLast?_concat]
    simp [eq_comm]
  · rw [hbelow _ (by omega)]
    exact iff_of_true rfl (fun h => absurd h hodd)

theorem append_eq_iff {α : Type*} {xs ys : List α} {n : ℕ} :
    xs.take n ++ ys = xs ↔ ys = xs.drop n := by
  constructor
  · exact fun h => List.append_cancel_left (h.trans (List.take_append_drop n xs).symm)
  · rintro rfl
    exact List.take_append_drop n xs

theorem uplink_full (h : Sound s) (hfull : bytes ≤ (held s).length) (dl_buf : Memory Byte) :
    let g := applyUplinkEcns s bytes dl_buf
    Sound g.post ∧
      (g.frame ++ held g.post ++ unread g.post = held s ++ unread s ↔ Harmless s bytes) := by
  have htaken := takeScratch_spec h bytes dl_buf
  have hcount : ¬ (takeScratch s bytes dl_buf).dl_buf_bytes < bytes := by
    rw [htaken.count]
    omega
  have heq : applyUplinkEcns s bytes dl_buf = takeScratch s bytes dl_buf := by
    simp only [applyUplinkEcns, if_neg hcount]
  have hmore : ¬ (held s ++ unread s).length < bytes := by
    rw [List.length_append]
    omega
  intro g
  rw [show g = takeScratch s bytes dl_buf from heq]
  refine ⟨htaken.sound, ?_⟩
  rw [htaken.frame, htaken.kept, htaken.unread, List.append_left_inj, Harmless]
  rw [append_eq_iff]
  constructor
  · exact fun hkept => ⟨fun _ => hkept, fun hless => absurd hless hmore⟩
  · rintro ⟨hkept, -⟩
    by_cases hless : bytes < (held s).length
    · exact hkept hless
    · have hexact : bytes = (held s).length := by omega
      rw [hexact, Nat.sub_self, List.take_zero, List.drop_length]

structure Gathers (s : AudioPostProcessor) (bytes : ℕ) (g : Gathering) : Prop where
  sound : Sound g.post
  frame : g.frame = (held s ++ unread s).take bytes
  count : g.dl_buf_bytes = min (held s ++ unread s).length bytes
  rest : held g.post ++ unread g.post = (held s ++ unread s).drop bytes

theorem takeBoth_spec (h : Sound s) (hshort : (held s).length < bytes) (dl_buf : Memory Byte) :
    (takeScratch s bytes dl_buf).dl_buf_bytes < bytes ∧
      Gathers s bytes (takeFresh (takeScratch s bytes dl_buf) bytes) := by
  have htaken := takeScratch_spec h bytes dl_buf
  have hheld : held (takeScratch s bytes dl_buf).post = [] := by
    rw [htaken.kept, Nat.sub_eq_zero_of_le hshort.le, List.take_zero]
  have hcount : (takeScratch s bytes dl_buf).dl_buf_bytes = (held s).length := by
    rw [htaken.count, min_eq_left hshort.le]
  have hless : (takeScratch s bytes dl_buf).dl_buf_bytes < bytes := hcount ▸ hshort
  have hfresh := takeFresh_spec htaken.sound (htaken.sound.scratch_none hheld) hless
  refine ⟨hless, ?_⟩
  constructor
  case sound => exact hfresh.sound
  case frame =>
    rw [hfresh.frame, htaken.frame, htaken.unread, hcount, List.take_append]
  case count =>
    rw [hfresh.count, htaken.unread, hcount, List.length_append]
    omega
  case rest =>
    rw [hfresh.rest, htaken.unread, hcount, List.drop_append, List.drop_of_length_le hshort.le,
      List.nil_append]

theorem uplink_short (h : Sound s) (hshort : (held s).length < bytes) (dl_buf : Memory Byte) :
    let g := applyUplinkEcns s bytes dl_buf
    Sound g.post ∧
      (g.frame ++ held g.post ++ unread g.post = held s ++ unread s ↔ Harmless s bytes) := by
  obtain ⟨hless, hgathers⟩ := takeBoth_spec h hshort dl_buf
  have heq : applyUplinkEcns s bytes dl_buf =
      let g := takeFresh (takeScratch s bytes dl_buf) bytes
      if g.dl_buf_bytes < bytes then pad g bytes else g := by
    simp only [applyUplinkEcns, if_pos hless]
  generalize takeFresh (takeScratch s bytes dl_buf) bytes = g at hgathers heq
  have hcount := hgathers.count
  have hall : g.frame ++ (held g.post ++ unread g.post) = held s ++ unread s := by
    rw [hgathers.frame, hgathers.rest, List.take_append_drop]
  rw [heq, Harmless]
  by_cases hstarved : g.dl_buf_bytes < bytes
  · simp only [if_pos hstarved]
    refine ⟨hgathers.sound, ?_⟩
    have hlength : (held s ++ unread s).length = g.dl_buf_bytes := by omega
    have hwhole : g.frame = held s ++ unread s := by
      rw [hgathers.frame, List.take_of_length_le (by omega)]
    show (pad g bytes).frame ++ held g.post ++ unread g.post = _ ↔ _
    rw [List.append_assoc, ← hall, List.append_left_inj, pad_frame hstarved, hall, hwhole, hlength]
    constructor
    · exact fun hodd => ⟨fun hmore => absurd hshort (by omega), fun _ => hodd⟩
    · exact fun hkept => hkept.2 hstarved
  · simp only [if_neg hstarved]
    refine ⟨hgathers.sound, ?_⟩
    rw [List.append_assoc]
    exact iff_of_true hall
      ⟨fun hmore => absurd hshort (by omega), fun hfew => absurd hstarved (by omega)⟩

theorem uplink_spec (h : Sound s) (bytes : ℕ) (dl_buf : Memory Byte) :
    let g := applyUplinkEcns s bytes dl_buf
    Sound g.post ∧
      (g.frame ++ held g.post ++ unread g.post = held s ++ unread s ↔ Harmless s bytes) := by
  by_cases hfull : bytes ≤ (held s).length
  · exact uplink_full h hfull dl_buf
  · exact uplink_short h (not_le.mp hfull) dl_buf

end Calls

/-! ## Runs -/

section Runs

variable {s s' : Session} {l : Label}

theorem step_sound (h : Sound s.post) (hs : step s l = some s') : Sound s'.post := by
  cases l with
  | writeDownlink buffer =>
    obtain rfl := Option.some.inj hs
    exact write_sound h buffer
  | applyUplink bytes dl_buf =>
    obtain rfl := Option.some.inj hs
    exact (uplink_spec h bytes dl_buf).1

theorem step_conserved_iff (h : Sound s.post) (hc : Conserved s) (hp : Proper s l)
    (hs : step s l = some s') : Conserved s' ↔ Kept s l := by
  rw [Conserved] at hc
  cases l with
  | writeDownlink buffer =>
    obtain rfl := Option.some.inj hs
    apply iff_of_true _ trivial
    have hreleased : unread s.post = [] := by
      rw [unread, show s.post.mEcnsOutBuf = none from hp]
      exact List.drop_nil
    rw [hreleased, List.append_nil] at hc
    show s.gathered ++ held s.post ++ buffer = s.handed ++ buffer
    rw [hc]
  | applyUplink bytes dl_buf =>
    obtain rfl := Option.some.inj hs
    rw [Kept, ← (uplink_spec h bytes dl_buf).2, Conserved, ← hc]
    simp only [List.append_assoc, List.append_right_inj]

theorem run_sound {ok : Session → Label → Prop} {labels : List Label}
    (hr : Run step ok silent labels s) : Sound s.post :=
  hr.invariant (fun s => Sound s.post) (fun _ _ _ h _ hs => step_sound h hs) started_sound

/-- Whatever is handed over and asked for, the code never meets its own coding error: the
scratch buffer is free whenever bytes are put into it. -/
theorem run_no_codingErrors {labels : List Label}
    (hr : Run step (fun _ _ => True) silent labels s) : s.post.codingErrors = 0 :=
  (run_sound hr).errors

theorem run_no_codingErrors_replaced : ∃ s, Run step (fun _ _ => True) silent
    [.writeDownlink [1, 2, 3], .applyUplink 2 (fun _ => 0), .writeDownlink [4, 5, 6],
      .applyUplink 2 (fun _ => 0)] s ∧ s.post.codingErrors = 0 := by
  have hr : Run step (fun _ _ => True) silent
      [.writeDownlink [1, 2, 3], .applyUplink 2 (fun _ => 0), .writeDownlink [4, 5, 6],
        .applyUplink 2 (fun _ => 0)] _ :=
    .cons rfl trivial (.cons rfl trivial (.cons rfl trivial (.cons rfl trivial (.nil _))))
  exact ⟨_, hr, run_no_codingErrors hr⟩

theorem run_conserved {labels : List Label}
    (hr : Run step (fun s l => Proper s l ∧ Kept s l) silent labels s) :
    Sound s.post ∧ Conserved s :=
  hr.invariant (fun s => Sound s.post ∧ Conserved s)
    (fun _ _ _ h ok hs => ⟨step_sound h.1 hs, (step_conserved_iff h.1 h.2 ok.1 hs).mpr ok.2⟩)
    ⟨started_sound, rfl⟩

end Runs

/-- While every call is harmless no byte is lost, and after such calls the next
one loses none exactly when it is harmless too. -/
theorem bytes_conserved (labels : List Label) (s : Session)
    (hr : Run step (fun s l => Proper s l ∧ Kept s l) silent labels s) :
    Conserved s ∧ ∀ l s', Proper s l → step s l = some s' → (Conserved s' ↔ Kept s l) :=
  ⟨(run_conserved hr).2,
    fun _ _ hp hs => step_conserved_iff (run_conserved hr).1 (run_conserved hr).2 hp hs⟩

theorem bytes_conserved_halves : ∃ s, Run step (fun s l => Proper s l ∧ Kept s l) silent
    [.writeDownlink [1, 2, 3, 4, 5, 6], .applyUplink 4 (fun _ => 0), .applyUplink 4 (fun _ => 0)] s ∧
    s.gathered = [1, 2, 3, 4, 5, 6] ∧ Conserved s := by
  have hr : Run step (fun s l => Proper s l ∧ Kept s l) silent
      [.writeDownlink [1, 2, 3, 4, 5, 6], .applyUplink 4 (fun _ => 0),
        .applyUplink 4 (fun _ => 0)] _ :=
    .cons rfl ⟨rfl, trivial⟩
      (.cons rfl ⟨⟨by decide, rfl⟩, by decide +kernel, by decide +kernel⟩
        (.cons rfl ⟨⟨by decide, rfl⟩, by decide +kernel, by decide +kernel⟩ (.nil _)))
  exact ⟨_, hr, by decide +kernel, (bytes_conserved _ _ hr).1⟩

/-- Four bytes wait when a frame of two is asked for, and the same two are
taken for the next one. -/
theorem bytes_repeated : ¬ ∀ labels s, Run step Proper silent labels s → Conserved s := by
  intro h
  have hr : Run step Proper silent
      [.writeDownlink [1, 2, 3, 4, 5, 6, 7, 8, 9, 10], .applyUplink 6 (fun _ => 0),
        .applyUplink 2 (fun _ => 0), .applyUplink 2 (fun _ => 0)] _ :=
    .cons rfl rfl (.cons rfl ⟨by decide, rfl⟩ (.cons rfl ⟨by decide, rfl⟩
      (.cons rfl ⟨by decide, rfl⟩ (.nil _))))
  exact absurd (h _ _ hr) (by simp only [Conserved]; decide +kernel)

end Wingray.AudioDownlink
