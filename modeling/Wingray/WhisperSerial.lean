import Wingray.WhisperExchange

/-!
# Reading raw bytes from the serial line

Every bit of the protocol travels as one raw byte. The read loop collects raw
bytes in a fixed buffer at the offset reached so far and always asks for the
length of the whole buffer. One pass of the loop is one `select` and, when the
descriptor is ready, the reads up to the first that was not interrupted.
-/

set_option autoImplicit false

namespace Wingray.WhisperSerial
open Wingray.CellMemory Wingray.WhisperCrc Wingray.WhisperExchange

def maxBufLen : ℕ := 512

structure Select where
  retVal : ℤ
  interrupted : Bool
  isSet : Bool
  deriving DecidableEq

inductive Read where
  | bytes (received : List Byte)
  | interrupted
  | failed
  deriving DecidableEq

structure Pass where
  select : Select
  reads : List Read
  deriving DecidableEq

/-- `do … while (retVal < 0 && errno == EINTR)` around the read. -/
def readRetried : List Read → Option Read
  | [] => none
  | .interrupted::rs => readRetried rs
  | r::_ => some r

/-- The locals of the loop, the memory, and the indices of `readwriteBuf` at
which received bytes were stored. -/
structure ReadState where
  memory : Memory Byte
  numBytesRead : BitVec 16
  stored : List ℕ

inductive Progress where
  | waiting (s : ReadState)
  | timedOut (s : ReadState)
  | complete (s : ReadState)

def Progress.state : Progress → ReadState
  | .waiting s => s
  | .timedOut s => s
  | .complete s => s

def receive (readwriteBuf : ℕ) (s : ReadState) (received : List Byte) : ReadState where
  memory := store s.memory (readwriteBuf+s.numBytesRead.toNat) received
  numBytesRead := s.numBytesRead+BitVec.ofNat 16 received.length
  stored := s.stored ++ List.range' s.numBytesRead.toNat received.length

/-- `while (goOn)`; the flag is never cleared. A read of no bytes and a failed
read or select go round again. -/
def readLoop (readwriteBuf : ℕ) (readLen : BitVec 16) : List Pass → ReadState → Progress
  | [], s => .waiting s
  | p::ps, s =>
    if p.select.retVal = 0 then .timedOut s
    else if p.select.retVal < 0 ∧ p.select.interrupted = true then
      readLoop readwriteBuf readLen ps s
    else if p.select.isSet then
      match readRetried p.reads with
      | none => .waiting s
      | some (.bytes (b::received)) =>
        let s := receive readwriteBuf s (b::received)
        if readLen ≤ s.numBytesRead then .complete s else readLoop readwriteBuf readLen ps s
      | some _ => readLoop readwriteBuf readLen ps s
    else readLoop readwriteBuf readLen ps s

def formatBit (byteData byteDataRaw : ℕ) (m : Memory Byte) (j i : ℕ) : Memory Byte :=
  let bit : Byte := 1 <<< i
  if (m (byteDataRaw+(8*j+i)) ^^^ 0x7F) &&& 0x7C ≠ 0 then
    store m (byteData+j) [m (byteData+j) &&& ~~~bit]
  else store m (byteData+j) [m (byteData+j) ||| bit]

def formatBytes (m : Memory Byte) (byteData byteDataRaw : ℕ) (lenData : BitVec 16) : Memory Byte :=
  (List.range (lenData.toInt.tdiv 8).toNat).foldl
    (fun m j => (List.range 8).foldl (fun m i => formatBit byteData byteDataRaw m j i) m) m

structure Transfer where
  status : Status
  retBytes : BitVec 16
  memory : Memory Byte

def cleared (readwriteBuf : ℕ) (m : Memory Byte) : ReadState where
  memory := store m readwriteBuf (List.replicate maxBufLen 0)
  numBytesRead := 0
  stored := []

def readFromDevice (readwriteBuf readBuf : ℕ) (readLen : BitVec 16) (cmdOfset : Byte)
    (passes : List Pass) (m : Memory Byte) : Option Transfer :=
  match readLoop readwriteBuf readLen passes (cleared readwriteBuf m) with
  | .waiting _ => none
  | .timedOut s =>
    some ⟨if 0 < s.numBytesRead then shaSuccess else shaCommFail, s.numBytesRead, s.memory⟩
  | .complete s => some ⟨shaSuccess, s.numBytesRead,
      formatBytes s.memory readBuf (readwriteBuf+cmdOfset.toNat) (readLen-cmdOfset.setWidth 16)⟩

/-! ## The bytes delivered before the loop is left -/

/-- The bytes a pass delivers to the loop, or `none` when it ends it. -/
def Pass.chunk (p : Pass) : Option (List Byte) :=
  if p.select.retVal = 0 then none
  else if p.select.retVal < 0 ∧ p.select.interrupted = true then some []
  else if p.select.isSet then
    match readRetried p.reads with
    | none => none
    | some (.bytes received) => some received
    | some _ => some []
  else some []

/-- `read(2)` returns at most as many bytes as it was asked for. -/
def ReadsBounded (ps : List Pass) : Prop :=
  ∀ p ∈ ps, ∀ received, Read.bytes received ∈ p.reads → received.length ≤ maxBufLen

/-- The number of bytes delivered up to the chunk that completes the request
or the pass that ends the loop. -/
def delivered (readLen : ℕ) : ℕ → List Pass → ℕ
  | n, [] => n
  | n, p::ps =>
    match p.chunk with
    | none => n
    | some [] => delivered readLen n ps
    | some (b::received) =>
      let n := n+(b::received).length
      if readLen ≤ n then n else delivered readLen n ps

section Delivered

variable {p : Pass} {b : Byte} {bs : List Byte} (readLen n : ℕ) (ps : List Pass)

theorem delivered_end (hc : p.chunk = none) : delivered readLen n (p::ps) = n := by
  rw [delivered, hc]

theorem delivered_idle (hc : p.chunk = some []) :
    delivered readLen n (p::ps) = delivered readLen n ps := by
  rw [delivered, hc]

theorem delivered_last (hc : p.chunk = some (b::bs)) (hdone : readLen ≤ n+(b::bs).length) :
    delivered readLen n (p::ps) = n+(b::bs).length := by
  rw [delivered, hc]
  exact if_pos hdone

theorem delivered_more (hc : p.chunk = some (b::bs)) (hmore : ¬ readLen ≤ n+(b::bs).length) :
    delivered readLen n (p::ps) = delivered readLen (n+(b::bs).length) ps := by
  rw [delivered, hc]
  exact if_neg hmore

end Delivered

theorem readRetried_mem (rs : List Read) (r : Read) (h : readRetried rs = some r) : r ∈ rs := by
  induction rs with
  | nil => simp [readRetried] at h
  | cons r' rs ih =>
    cases r' with
    | interrupted => exact List.mem_cons_of_mem _ (ih h)
    | bytes received => simp_all [readRetried]
    | failed => simp_all [readRetried]

theorem chunk_bounded (ps : List Pass) (h : ReadsBounded ps) (p : Pass) (hp : p ∈ ps)
    (received : List Byte) (hc : p.chunk = some received) : received.length ≤ maxBufLen := by
  unfold Pass.chunk at hc
  split_ifs at hc with htimeout hinterrupted hset
  · obtain rfl : [] = received := by simpa using hc
    exact Nat.zero_le _
  · cases hr : readRetried p.reads with
    | none => simp [hr] at hc
    | some r =>
      cases r with
      | bytes bs =>
        obtain rfl : bs = received := by simpa [hr] using hc
        exact h p hp bs (readRetried_mem _ _ hr)
      | interrupted => simp_all
      | failed => simp_all
  · obtain rfl : [] = received := by simpa using hc
    exact Nat.zero_le _

theorem chunk_room {p : Pass} {ps : List Pass} {n : ℕ} {received : List Byte}
    (h : ReadsBounded (p::ps)) (hn : n ≤ maxBufLen) (hc : p.chunk = some received) :
    n+received.length < 2^16 := by
  have hsize := chunk_bounded _ h p List.mem_cons_self _ hc
  simp only [maxBufLen] at hn hsize
  omega

/-- The loop asks for more only while it has less than the request. -/
theorem delivered_le (readLen n : ℕ) (ps : List Pass) (h : ReadsBounded ps) (hn : n ≤ readLen) :
    delivered readLen n ps ≤ readLen+maxBufLen := by
  induction n, ps using delivered.induct readLen with
  | case1 n => exact Nat.le_add_right_of_le hn
  | case2 n p ps hc =>
    rw [delivered_end readLen n ps hc]
    exact Nat.le_add_right_of_le hn
  | case3 n p ps hc ih =>
    rw [delivered_idle readLen n ps hc]
    exact ih (fun q hq => h q (List.mem_cons_of_mem p hq)) hn
  | case4 n p ps b bs hc _ hdone =>
    have hsize := chunk_bounded _ h p List.mem_cons_self _ hc
    rw [delivered_last readLen n ps hc hdone]
    exact Nat.add_le_add hn hsize
  | case5 n p ps b bs hc _ hmore ih =>
    rw [delivered_more readLen n ps hc hmore]
    exact ih (fun q hq => h q (List.mem_cons_of_mem p hq)) (not_le.mp hmore).le

theorem readLoop_end (readwriteBuf : ℕ) (readLen : BitVec 16) (p : Pass) (ps : List Pass)
    (s : ReadState) (h : p.chunk = none) :
    readLoop readwriteBuf readLen (p::ps) s = .waiting s ∨
      readLoop readwriteBuf readLen (p::ps) s = .timedOut s := by
  rw [readLoop]
  unfold Pass.chunk at h
  split_ifs at h with htimeout hinterrupted hset
  · rw [if_pos htimeout]
    exact .inr rfl
  · rw [if_neg htimeout, if_neg hinterrupted, if_pos hset]
    cases hr : readRetried p.reads with
    | none => exact .inl rfl
    | some r => cases r <;> simp [hr] at h

theorem readLoop_end_state (readwriteBuf : ℕ) (readLen : BitVec 16) (p : Pass) (ps : List Pass)
    (s : ReadState) (h : p.chunk = none) :
    (readLoop readwriteBuf readLen (p::ps) s).state = s := by
  rcases readLoop_end readwriteBuf readLen p ps s h with hend | hend <;> rw [hend] <;> rfl

theorem readLoop_idle (readwriteBuf : ℕ) (readLen : BitVec 16) (p : Pass) (ps : List Pass)
    (s : ReadState) (h : p.chunk = some []) :
    readLoop readwriteBuf readLen (p::ps) s = readLoop readwriteBuf readLen ps s := by
  rw [readLoop]
  unfold Pass.chunk at h
  split_ifs at h with htimeout hinterrupted hset
  · rw [if_neg htimeout, if_pos hinterrupted]
  · rw [if_neg htimeout, if_neg hinterrupted, if_pos hset]
    cases hr : readRetried p.reads with
    | none => simp [hr] at h
    | some r => cases r <;> simp_all
  · rw [if_neg htimeout, if_neg hinterrupted, if_neg hset]

theorem receive_count (readwriteBuf : ℕ) (s : ReadState) (received : List Byte)
    (hroom : s.numBytesRead.toNat+received.length < 2^16) :
    (receive readwriteBuf s received).numBytesRead.toNat =
      s.numBytesRead.toNat+received.length := by
  simp only [receive, BitVec.toNat_add, BitVec.toNat_ofNat]
  omega

theorem readLoop_chunk (readwriteBuf : ℕ) (readLen : BitVec 16) (p : Pass) (ps : List Pass)
    (s : ReadState) (b : Byte) (received : List Byte) (h : p.chunk = some (b::received)) :
    readLoop readwriteBuf readLen (p::ps) s =
      if readLen ≤ (receive readwriteBuf s (b::received)).numBytesRead then
        .complete (receive readwriteBuf s (b::received))
      else readLoop readwriteBuf readLen ps (receive readwriteBuf s (b::received)) := by
  rw [readLoop]
  unfold Pass.chunk at h
  split_ifs at h with htimeout hinterrupted hset
  · simp at h
  · rw [if_neg htimeout, if_neg hinterrupted, if_pos hset]
    cases hr : readRetried p.reads with
    | none => simp [hr] at h
    | some r => cases r <;> simp_all
  · simp at h

theorem readLoop_last (readwriteBuf : ℕ) (readLen : BitVec 16) (p : Pass) (ps : List Pass)
    (s : ReadState) (b : Byte) (bs : List Byte) (h : p.chunk = some (b::bs))
    (hroom : s.numBytesRead.toNat+(b::bs).length < 2^16)
    (hdone : readLen.toNat ≤ s.numBytesRead.toNat+(b::bs).length) :
    readLoop readwriteBuf readLen (p::ps) s = .complete (receive readwriteBuf s (b::bs)) := by
  rw [← receive_count readwriteBuf s (b::bs) hroom] at hdone
  rw [readLoop_chunk readwriteBuf readLen p ps s b bs h]
  exact if_pos hdone

theorem readLoop_more (readwriteBuf : ℕ) (readLen : BitVec 16) (p : Pass) (ps : List Pass)
    (s : ReadState) (b : Byte) (bs : List Byte) (h : p.chunk = some (b::bs))
    (hroom : s.numBytesRead.toNat+(b::bs).length < 2^16)
    (hmore : ¬ readLen.toNat ≤ s.numBytesRead.toNat+(b::bs).length) :
    readLoop readwriteBuf readLen (p::ps) s =
      readLoop readwriteBuf readLen ps (receive readwriteBuf s (b::bs)) := by
  rw [← receive_count readwriteBuf s (b::bs) hroom] at hmore
  rw [readLoop_chunk readwriteBuf readLen p ps s b bs h]
  exact if_neg hmore

/-- The indices stored are those below the number of bytes read. -/
def Filled (s : ReadState) : Prop := ∀ i, i ∈ s.stored ↔ i < s.numBytesRead.toNat

theorem receive_filled (readwriteBuf : ℕ) (s : ReadState) (received : List Byte)
    (hs : Filled s) (hroom : s.numBytesRead.toNat+received.length < 2^16) :
    Filled (receive readwriteBuf s received) := by
  intro i
  rw [receive_count readwriteBuf s received hroom, receive, List.mem_append, hs i,
    List.mem_range'_1]
  omega

theorem readLoop_stored (readwriteBuf : ℕ) (readLen : BitVec 16) (ps : List Pass) (s : ReadState)
    (hlen : readLen.toNat ≤ maxBufLen) (hread : ReadsBounded ps) (hs : Filled s)
    (hn : s.numBytesRead.toNat ≤ maxBufLen) (i : ℕ) :
    i ∈ (readLoop readwriteBuf readLen ps s).state.stored ↔
      i < delivered readLen.toNat s.numBytesRead.toNat ps := by
  generalize hcounted : s.numBytesRead.toNat = n at hn ⊢
  induction n, ps using delivered.induct readLen.toNat generalizing s with
  | case1 n =>
    rw [← hcounted]
    exact hs i
  | case2 n p ps hc =>
    rw [readLoop_end_state readwriteBuf readLen p ps s hc, delivered_end _ n ps hc, ← hcounted]
    exact hs i
  | case3 n p ps hc ih =>
    rw [readLoop_idle readwriteBuf readLen p ps s hc, delivered_idle _ n ps hc]
    exact ih s (fun q hq => hread q (List.mem_cons_of_mem p hq)) hs hcounted hn
  | case4 n p ps b bs hc _ hdone =>
    subst hcounted
    have hroom := chunk_room hread hn hc
    have hcount := receive_count readwriteBuf s (b::bs) hroom
    rw [readLoop_last readwriteBuf readLen p ps s b bs hc hroom hdone,
      delivered_last _ _ ps hc hdone, ← hcount]
    exact receive_filled readwriteBuf s (b::bs) hs hroom i
  | case5 n p ps b bs hc _ hmore ih =>
    subst hcounted
    have hroom := chunk_room hread hn hc
    rw [readLoop_more readwriteBuf readLen p ps s b bs hc hroom hmore,
      delivered_more _ _ ps hc hmore]
    exact ih _ (fun q hq => hread q (List.mem_cons_of_mem p hq))
      (receive_filled readwriteBuf s (b::bs) hs hroom) (receive_count readwriteBuf s _ hroom)
      ((not_le.mp hmore).le.trans hlen)

/-- No received byte is stored outside the buffer exactly when the chunks up
to the one that completes the request fit into it together. -/
theorem stored_inside_iff (readwriteBuf : ℕ) (readLen : BitVec 16) (ps : List Pass)
    (m : Memory Byte) (hlen : readLen.toNat ≤ maxBufLen) (hread : ReadsBounded ps) :
    (∀ i ∈ (readLoop readwriteBuf readLen ps (cleared readwriteBuf m)).state.stored,
      i < maxBufLen) ↔ delivered readLen.toNat 0 ps ≤ maxBufLen := by
  have hempty : Filled (cleared readwriteBuf m) := by
    intro i
    simp [cleared]
  have hstored := readLoop_stored readwriteBuf readLen ps (cleared readwriteBuf m) hlen hread
    hempty (Nat.zero_le _)
  have hzero : (cleared readwriteBuf m).numBytesRead.toNat = 0 := rfl
  rw [hzero] at hstored
  constructor
  · intro h
    by_contra hover
    exact lt_irrefl _ (h maxBufLen ((hstored maxBufLen).mpr (by omega)))
  · intro h i hi
    have hd := (hstored i).mp hi
    omega

def readyPass (received : List Byte) : Pass := ⟨⟨1, false, true⟩, [.bytes received]⟩

theorem readyPass_reads (received bs : List Byte) (h : Read.bytes bs ∈ (readyPass received).reads) :
    bs = received := by
  simpa [readyPass] using h

def backlog : List Pass := [readyPass [0x7F], readyPass (List.replicate 512 0x7F)]

theorem backlog_overruns :
    ReadsBounded backlog ∧
    maxBufLen ∈ (readLoop 0 64 backlog (cleared 0 (fun _ => 0))).state.stored := by
  constructor
  · intro p hp received hr
    simp only [backlog, List.mem_cons, List.not_mem_nil, or_false] at hp
    rcases hp with rfl | rfl
    · rw [readyPass_reads _ _ hr]
      decide
    · rw [readyPass_reads _ _ hr, List.length_replicate]
      exact le_rfl
  · decide +kernel

theorem stored_inside_short :
    (∀ i ∈ (readLoop 0 8 [readyPass [0x7F]] (cleared 0 (fun _ => 0))).state.stored,
      i < maxBufLen) ↔ delivered 8 0 [readyPass [0x7F]] ≤ maxBufLen :=
  stored_inside_iff 0 8 [readyPass [0x7F]] (fun _ => 0) (by decide) (by
    intro p hp received hr
    rw [List.mem_singleton.mp hp] at hr
    rw [readyPass_reads _ _ hr]
    decide)

end Wingray.WhisperSerial
