import Wingray.GuardedRun
import Wingray.WhisperSerial

/-!
# The end of the read loop

`while (goOn)` is left by a timeout and by the byte that completes the request,
and by nothing else: an end of file, an I/O error or a failed `select` goes
round again.
-/

set_option autoImplicit false

namespace Wingray.WhisperReadLoop
open Wingray.CellMemory Wingray.GuardedRun Wingray.WhisperCrc Wingray.WhisperExchange
open Wingray.WhisperSerial

/-! ## One iteration -/

def status : Progress → Option Status
  | .waiting _ => none
  | .timedOut s => some (if 0 < s.numBytesRead then shaSuccess else shaCommFail)
  | .complete _ => some shaSuccess

theorem readFromDevice_status (readwriteBuf readBuf : ℕ) (readLen : BitVec 16) (cmdOfset : Byte)
    (passes : List Pass) (m : Memory Byte) :
    (readFromDevice readwriteBuf readBuf readLen cmdOfset passes m).map Transfer.status =
      status (readLoop readwriteBuf readLen passes (cleared readwriteBuf m)) := by
  rw [readFromDevice]
  cases readLoop readwriteBuf readLen passes (cleared readwriteBuf m) <;> rfl

def Interrupted (p : Pass) : Prop := p.select.retVal < 0 ∧ p.select.interrupted = true

instance (p : Pass) : Decidable (Interrupted p) := inferInstanceAs (Decidable (_ ∧ _))

/-- The `select` fails with an errno other than `EINTR`. -/
def SelectFails (p : Pass) : Prop := p.select.retVal < 0 ∧ p.select.interrupted = false

def Reads (p : Pass) : Prop :=
  p.select.retVal ≠ 0 ∧ ¬ Interrupted p ∧ p.select.isSet = true

/-- The read returns 0 or fails with an errno other than `EINTR`. -/
def ReadFails (p : Pass) : Prop :=
  Reads p ∧ (readRetried p.reads = some (.bytes []) ∨ readRetried p.reads = some .failed)

/-- The descriptor is reported as ready and its bit is not set. -/
def Unready (p : Pass) : Prop := 0 < p.select.retVal ∧ p.select.isSet = false

/-- The bytes take the count beyond its sixteen bits. -/
def Wraps (s : ReadState) (p : Pass) : Prop :=
  ∃ bs, p.chunk = some bs ∧ 2^16 ≤ s.numBytesRead.toNat+bs.length

def Faulty (s : ReadState) (p : Pass) : Prop :=
  SelectFails p ∨ ReadFails p ∨ Unready p ∨ Wraps s p

/-- The read of the pass comes to an end. -/
def Answered (p : Pass) : Prop := Reads p → readRetried p.reads ≠ none

def Advances (s : ReadState) : Progress → Prop
  | .waiting s' => s.numBytesRead.toNat < s'.numBytesRead.toNat
  | _ => True

def EndsInError (p : Progress) : Prop := ∃ st, status p = some st ∧ st ≠ shaSuccess

/-- An iteration that is not interrupted advances, and one whose `select` or
read fails ends the call with an error. -/
structure Sound (readwriteBuf : ℕ) (readLen : BitVec 16) (s : ReadState) (p : Pass) : Prop where
  progress : Interrupted p ∨ Advances s (readLoop readwriteBuf readLen [p] s)
  errors : SelectFails p ∨ ReadFails p → EndsInError (readLoop readwriteBuf readLen [p] s)

section Iteration

variable (readwriteBuf : ℕ) (readLen : BitVec 16) (s : ReadState) {p : Pass}

theorem readRetried_not_interrupted (rs : List Read) : readRetried rs ≠ some .interrupted := by
  induction rs with
  | nil => simp [readRetried]
  | cons r rs ih =>
    cases r with
    | interrupted => exact ih
    | bytes received => simp [readRetried]
    | failed => simp [readRetried]

inductive Iteration (readwriteBuf : ℕ) (readLen : BitVec 16) (s : ReadState) (p : Pass) : Prop
  | timeout (ht : p.select.retVal = 0) (hc : p.chunk = none)
      (hl : ∀ ps, readLoop readwriteBuf readLen (p::ps) s = .timedOut s)
  | interrupted (hi : Interrupted p) (hc : p.chunk = some [])
      (hl : ∀ ps, readLoop readwriteBuf readLen (p::ps) s = readLoop readwriteBuf readLen ps s)
  | idle (hn : p.select.retVal ≠ 0) (hi : ¬ Interrupted p) (hc : p.chunk = some [])
      (hidle : p.select.isSet = false ∨ ReadFails p)
      (hl : ∀ ps, readLoop readwriteBuf readLen (p::ps) s = readLoop readwriteBuf readLen ps s)
  | chunk (b : Byte) (bs : List Byte) (hr : Reads p)
      (hread : readRetried p.reads = some (.bytes (b::bs))) (hc : p.chunk = some (b::bs))
      (hl : ∀ ps, readLoop readwriteBuf readLen (p::ps) s =
        if readLen ≤ (receive readwriteBuf s (b::bs)).numBytesRead then
          .complete (receive readwriteBuf s (b::bs))
        else readLoop readwriteBuf readLen ps (receive readwriteBuf s (b::bs)))

theorem chunk_eq (p : Pass) : p.chunk =
    if p.select.retVal = 0 then none
    else if Interrupted p then some []
    else if p.select.isSet then
      match readRetried p.reads with
      | none => none
      | some (.bytes received) => some received
      | some _ => some []
    else some [] := rfl

theorem iteration_cases (hp : Answered p) : Iteration readwriteBuf readLen s p := by
  by_cases ht : p.select.retVal = 0
  · apply Iteration.timeout ht
    · rw [chunk_eq, if_pos ht]
    · intro ps
      rw [readLoop, if_pos ht]
  · by_cases hi : Interrupted p
    · have hc : p.chunk = some [] := by
        rw [chunk_eq, if_neg ht, if_pos hi]
      exact .interrupted hi hc (fun ps => readLoop_idle readwriteBuf readLen p ps s hc)
    · by_cases hset : p.select.isSet = true
      · have hreads : Reads p := ⟨ht, hi, hset⟩
        have hchunk : p.chunk = match readRetried p.reads with
            | none => none
            | some (.bytes received) => some received
            | some _ => some [] := by
          rw [chunk_eq, if_neg ht, if_neg hi, if_pos hset]
        cases hr : readRetried p.reads with
        | none => exact absurd hr (hp hreads)
        | some r =>
          rw [hr] at hchunk
          cases r with
          | interrupted => exact absurd hr (readRetried_not_interrupted _)
          | failed =>
            exact .idle ht hi hchunk (.inr ⟨hreads, .inr hr⟩)
              (fun ps => readLoop_idle readwriteBuf readLen p ps s hchunk)
          | bytes received =>
            cases received with
            | nil =>
              exact .idle ht hi hchunk (.inr ⟨hreads, .inl hr⟩)
                (fun ps => readLoop_idle readwriteBuf readLen p ps s hchunk)
            | cons b bs =>
              exact .chunk b bs hreads hr hchunk
                (fun ps => readLoop_chunk readwriteBuf readLen p ps s b bs hchunk)
      · have hc : p.chunk = some [] := by
          rw [chunk_eq, if_neg ht, if_neg hi, if_neg hset]
        exact .idle ht hi hc (.inl (Bool.eq_false_iff.mpr hset))
          (fun ps => readLoop_idle readwriteBuf readLen p ps s hc)

theorem wraps_iff {bs : List Byte} (hc : p.chunk = some bs) :
    Wraps s p ↔ 2^16 ≤ s.numBytesRead.toNat+bs.length := by
  constructor
  · rintro ⟨bs', hc', hle⟩
    obtain rfl := Option.some.inj (hc.symm.trans hc')
    exact hle
  · exact fun hle => ⟨bs, hc, hle⟩

theorem idle_not_wraps (hc : p.chunk = some []) : ¬ Wraps s p := by
  have hlt := s.numBytesRead.isLt
  rw [wraps_iff s hc, List.length_nil]
  omega

theorem waiting_not_error : ¬ EndsInError (.waiting s) := by
  rintro ⟨st, hst, _⟩
  cases hst

theorem complete_not_error : ¬ EndsInError (.complete s) := by
  rintro ⟨st, hst, hne⟩
  exact hne (Option.some.inj hst).symm

def Unfinished (readLen : BitVec 16) (s : ReadState) : Prop :=
  s.numBytesRead = 0 ∨ s.numBytesRead.toNat < readLen.toNat

theorem timeout_sound (ht : p.select.retVal = 0)
    (hl : readLoop readwriteBuf readLen [p] s = .timedOut s) :
    Sound readwriteBuf readLen s p := by
  constructor
  case progress =>
    rw [hl]
    exact .inr trivial
  case errors =>
    rintro (⟨hneg, _⟩ | ⟨⟨hne, _⟩, _⟩)
    · omega
    · exact absurd ht hne

theorem timeout_not_faulty (ht : p.select.retVal = 0) (hc : p.chunk = none) : ¬ Faulty s p := by
  rintro (⟨hneg, _⟩ | ⟨⟨hne, _⟩, _⟩ | ⟨hpos, _⟩ | ⟨bs, hbs, _⟩)
  · omega
  · exact hne ht
  · omega
  · cases hc.symm.trans hbs

theorem interrupted_not_failed (hi : Interrupted p) : ¬ (SelectFails p ∨ ReadFails p) := by
  rintro (⟨_, hno⟩ | ⟨⟨_, hni, _⟩, _⟩)
  · exact absurd (hi.2.symm.trans hno) (by decide)
  · exact hni hi

theorem interrupted_sound (hi : Interrupted p) : Sound readwriteBuf readLen s p where
  progress := .inl hi
  errors hf := absurd hf (interrupted_not_failed hi)

theorem interrupted_not_faulty (hi : Interrupted p) (hc : p.chunk = some []) : ¬ Faulty s p := by
  rintro (hselect | hread | ⟨hpos, _⟩ | hw)
  · exact interrupted_not_failed hi (.inl hselect)
  · exact interrupted_not_failed hi (.inr hread)
  · have := hi.1
    omega
  · exact idle_not_wraps s hc hw

theorem idle_unsound (hi : ¬ Interrupted p)
    (hl : readLoop readwriteBuf readLen [p] s = .waiting s) :
    ¬ Sound readwriteBuf readLen s p := by
  intro hsound
  rcases hsound.progress with hint | hadv
  · exact hi hint
  · rw [hl] at hadv
    exact lt_irrefl _ hadv

theorem idle_faulty (hn : p.select.retVal ≠ 0) (hi : ¬ Interrupted p)
    (hidle : p.select.isSet = false ∨ ReadFails p) : Faulty s p := by
  rcases hidle with hset | hread
  · rcases lt_or_gt_of_ne hn with hneg | hpos
    · exact .inl ⟨hneg, Bool.eq_false_iff.mpr (fun ht => hi ⟨hneg, ht⟩)⟩
    · exact .inr (.inr (.inl ⟨hpos, hset⟩))
  · exact .inr (.inl hread)

section Chunk

variable {b : Byte} {bs : List Byte}

theorem chunk_not_readFails (hread : readRetried p.reads = some (.bytes (b::bs))) :
    ¬ ReadFails p := by
  rintro ⟨_, hempty | hfailed⟩
  · cases hread.symm.trans hempty
  · cases hread.symm.trans hfailed

theorem chunk_faulty_iff (hr : Reads p) (hread : readRetried p.reads = some (.bytes (b::bs)))
    (hc : p.chunk = some (b::bs)) :
    Faulty s p ↔ SelectFails p ∨ 2^16 ≤ s.numBytesRead.toNat+(b::bs).length := by
  have hready : ¬ Unready p := fun hu => absurd (hr.2.2.symm.trans hu.2) (by decide)
  rw [Faulty, or_iff_right (chunk_not_readFails hread), or_iff_right hready, wraps_iff s hc]

theorem receive_wrapped (bs : List Byte) : (receive readwriteBuf s bs).numBytesRead.toNat =
    (s.numBytesRead.toNat+bs.length) % 2^16 := by
  simp [receive, BitVec.toNat_add]

/-- A count taken beyond its bits has become smaller, and the loop goes on. -/
theorem wrapped_waits (hs : Unfinished readLen s) (hsize : bs.length < 2^16)
    (hwraps : 2^16 ≤ s.numBytesRead.toNat+bs.length) :
    (receive readwriteBuf s bs).numBytesRead.toNat < s.numBytesRead.toNat ∧
      ¬ readLen ≤ (receive readwriteBuf s bs).numBytesRead := by
  have hlt := s.numBytesRead.isLt
  have hcount := receive_wrapped readwriteBuf s bs
  have hless : (receive readwriteBuf s bs).numBytesRead.toNat < s.numBytesRead.toNat := by
    rw [hcount]
    omega
  refine ⟨hless, ?_⟩
  rw [BitVec.le_def]
  rcases hs with hzero | hn
  · have hnone : s.numBytesRead.toNat = 0 := by
      rw [hzero]
      rfl
    omega
  · omega

end Chunk

/-- One iteration is sound exactly when its pass is not faulty. -/
theorem sound_iff (hp : Answered p) (hb : ReadsBounded [p]) (hs : Unfinished readLen s) :
    Sound readwriteBuf readLen s p ↔ ¬ Faulty s p := by
  cases iteration_cases readwriteBuf readLen s hp with
  | timeout ht hc hl =>
    exact iff_of_true (timeout_sound _ _ s ht (hl [])) (timeout_not_faulty s ht hc)
  | interrupted hi hc hl =>
    exact iff_of_true (interrupted_sound _ _ s hi) (interrupted_not_faulty s hi hc)
  | idle hn hi hc hidle hl =>
    exact iff_of_false (idle_unsound _ _ s hi (hl [])) (not_not.mpr (idle_faulty s hn hi hidle))
  | chunk b bs hr hread hc hl =>
    have hgone := hl []
    rw [chunk_faulty_iff s hr hread hc, not_or]
    have hsize : (b::bs).length < 2^16 :=
      (chunk_bounded _ hb p List.mem_cons_self _ hc).trans_lt (by decide)
    constructor
    · intro hsound
      constructor
      · intro hfails
        have herror := hsound.errors (.inl hfails)
        rw [hgone] at herror
        split_ifs at herror
        · exact complete_not_error _ herror
        · exact waiting_not_error _ herror
      · intro hwraps
        obtain ⟨hless, hmore⟩ := wrapped_waits readwriteBuf readLen s hs hsize hwraps
        rcases hsound.progress with hint | hadv
        · exact hr.2.1 hint
        · rw [hgone, if_neg hmore] at hadv
          exact absurd hadv (Nat.not_lt.mpr hless.le)
    · rintro ⟨hselect, hfits⟩
      constructor
      case progress =>
        right
        rw [hgone]
        split_ifs
        · trivial
        · show s.numBytesRead.toNat < (receive readwriteBuf s (b::bs)).numBytesRead.toNat
          rw [receive_count readwriteBuf s _ (not_le.mp hfits), List.length_cons]
          omega
      case errors =>
        rintro (hfails | hfails)
        · exact absurd hfails hselect
        · exact absurd hfails (chunk_not_readFails hread)

end Iteration

/-! ## The loop -/

section Loop

variable (readwriteBuf : ℕ) (readLen : BitVec 16)

def iterate (s : ReadState) (p : Pass) : Option ReadState :=
  match readLoop readwriteBuf readLen [p] s with
  | .waiting s' => some s'
  | _ => none

abbrev Goes : ReadState → List Pass → ReadState → Prop :=
  Run (iterate readwriteBuf readLen) (fun _ _ => True)

def Reaches (ps : List Pass) (s t : ReadState) (p : Pass) : Prop :=
  ∃ before after, ps = before ++ p::after ∧ Goes readwriteBuf readLen s before t

def interruptions (ps : List Pass) : ℕ := ps.countP (fun p => decide (Interrupted p))

/-- Every iteration is sound, their number is bounded, and so the loop is left. -/
structure Ends (ps : List Pass) (s : ReadState) : Prop where
  sound : ∀ t p, Reaches readwriteBuf readLen ps s t p → Sound readwriteBuf readLen t p
  bounded : ∀ before p after t, ps = before ++ p::after → Goes readwriteBuf readLen s before t →
    (before ++ [p]).length ≤ readLen.toNat+interruptions (before ++ [p])+1
  left : readLen.toNat+interruptions ps+1 < ps.length →
    ∀ t, readLoop readwriteBuf readLen ps s ≠ .waiting t

variable {readwriteBuf readLen} {ps : List Pass} {s s' t : ReadState} {p : Pass}

theorem iterate_some (hs : iterate readwriteBuf readLen s p = some s') :
    readLoop readwriteBuf readLen [p] s = .waiting s' := by
  rw [iterate] at hs
  cases hr : readLoop readwriteBuf readLen [p] s with
  | waiting u =>
    rw [hr] at hs
    rw [Option.some.inj hs]
  | timedOut u => simp [hr] at hs
  | complete u => simp [hr] at hs

theorem waiting_goes (ha : ∀ p ∈ ps, Answered p)
    (h : readLoop readwriteBuf readLen ps s = .waiting t) : Goes readwriteBuf readLen s ps t := by
  induction ps generalizing s with
  | nil =>
    obtain rfl := Progress.waiting.inj h
    exact .nil s
  | cons p ps ih =>
    have htail := fun s => ih (s := s) (fun q hq => ha q (List.mem_cons_of_mem p hq))
    cases iteration_cases readwriteBuf readLen s (ha p List.mem_cons_self) with
    | timeout _ _ hl =>
      rw [hl ps] at h
      cases h
    | interrupted _ _ hl =>
      rw [hl ps] at h
      refine .cons ?_ trivial (htail s h)
      rw [iterate, hl []]
      rfl
    | idle _ _ _ _ hl =>
      rw [hl ps] at h
      refine .cons ?_ trivial (htail s h)
      rw [iterate, hl []]
      rfl
    | chunk b bs _ _ _ hl =>
      rw [hl ps] at h
      split_ifs at h with hdone
      refine .cons ?_ trivial (htail _ h)
      rw [iterate, hl [], if_neg hdone]
      rfl

theorem iterate_unfinished (hs : iterate readwriteBuf readLen s p = some s')
    (hu : Unfinished readLen s) : Unfinished readLen s' := by
  have hw := iterate_some hs
  cases hc : p.chunk with
  | none =>
    rcases readLoop_end readwriteBuf readLen p [] s hc with hend | hend
    · obtain rfl := Progress.waiting.inj (hend.symm.trans hw)
      exact hu
    · cases hend.symm.trans hw
  | some chunk =>
    cases chunk with
    | nil =>
      rw [readLoop_idle readwriteBuf readLen p [] s hc] at hw
      obtain rfl := Progress.waiting.inj hw
      exact hu
    | cons b bs =>
      rw [readLoop_chunk readwriteBuf readLen p [] s b bs hc] at hw
      split_ifs at hw with hdone
      obtain rfl := Progress.waiting.inj hw
      rw [BitVec.le_def] at hdone
      exact .inr (not_le.mp hdone)

theorem goes_unfinished (hg : Goes readwriteBuf readLen s ps t) (hu : Unfinished readLen s) :
    Unfinished readLen t :=
  hg.invariant (Unfinished readLen) (fun _ _ _ hu _ hs => iterate_unfinished hs hu) hu

theorem unfinished_le (hu : Unfinished readLen s) : s.numBytesRead.toNat ≤ readLen.toNat := by
  rcases hu with hzero | hlt
  · rw [hzero]
    exact Nat.zero_le _
  · exact hlt.le

theorem iterate_interrupted (hi : Interrupted p)
    (hs : iterate readwriteBuf readLen s p = some s') : s' = s := by
  have hc : p.chunk = some [] := by
    rw [chunk_eq, if_neg (by have := hi.1; omega), if_pos hi]
  have hw := iterate_some hs
  rw [readLoop_idle readwriteBuf readLen p [] s hc] at hw
  exact (Progress.waiting.inj hw).symm

theorem goes_counted (hg : Goes readwriteBuf readLen s ps t)
    (hsound : ∀ u p, Reaches readwriteBuf readLen ps s u p → Sound readwriteBuf readLen u p) :
    ps.length+s.numBytesRead.toNat ≤ t.numBytesRead.toNat+interruptions ps := by
  induction hg with
  | nil s => simp [interruptions]
  | @cons s s' t p ps hs _ hg ih =>
    have htail := ih (fun u q ⟨before, after, hps, hbefore⟩ =>
      hsound u q ⟨p::before, after, by rw [hps, List.cons_append], .cons hs trivial hbefore⟩)
    have hcount : interruptions (p::ps) = interruptions ps+if Interrupted p then 1 else 0 := by
      simp [interruptions, List.countP_cons]
    rw [List.length_cons, hcount]
    by_cases hi : Interrupted p
    · rw [iterate_interrupted hi hs] at htail
      rw [if_pos hi]
      omega
    · have hprogress := (hsound s p ⟨[], ps, rfl, .nil s⟩).progress
      rw [iterate_some hs] at hprogress
      have hgrown : s.numBytesRead.toNat < s'.numBytesRead.toNat := hprogress.resolve_left hi
      rw [if_neg hi]
      omega

theorem reaches_mem (hr : Reaches readwriteBuf readLen ps s t p) : p ∈ ps := by
  obtain ⟨before, after, rfl, _⟩ := hr
  exact List.mem_append_right _ List.mem_cons_self

end Loop

/-- The loop is left as it should be exactly when no pass that it comes to is
faulty. -/
theorem loop_ends_iff (readwriteBuf : ℕ) (readLen : BitVec 16) (ps : List Pass) (m : Memory Byte)
    (ha : ∀ p ∈ ps, Answered p) (hb : ReadsBounded ps) :
    Ends readwriteBuf readLen ps (cleared readwriteBuf m) ↔
      ∀ t p, Reaches readwriteBuf readLen ps (cleared readwriteBuf m) t p → ¬ Faulty t p := by
  have hstart : Unfinished readLen (cleared readwriteBuf m) := .inl rfl
  have hiff : ∀ t p, Reaches readwriteBuf readLen ps (cleared readwriteBuf m) t p →
      (Sound readwriteBuf readLen t p ↔ ¬ Faulty t p) := by
    intro t p hr
    have hmem := reaches_mem hr
    obtain ⟨before, after, _, hg⟩ := hr
    apply sound_iff readwriteBuf readLen t (ha p hmem) _ (goes_unfinished hg hstart)
    intro q hq
    rw [List.mem_singleton.mp hq]
    exact hb p hmem
  constructor
  · intro h t p hr
    exact (hiff t p hr).mp (h.sound t p hr)
  · intro h
    have hsound := fun t p hr => (hiff t p hr).mpr (h t p hr)
    constructor
    case sound => exact hsound
    case bounded =>
      intro before p after t hps hg
      have hcounted := goes_counted hg (fun u q ⟨xs, ys, hxs, hu⟩ =>
        hsound u q ⟨xs, ys ++ p::after, by rw [hps, hxs, List.append_assoc, List.cons_append], hu⟩)
      have hle := unfinished_le (goes_unfinished hg hstart)
      have hmore : interruptions before ≤ interruptions (before ++ [p]) := by
        simp [interruptions]
      rw [List.length_append, List.length_singleton]
      omega
    case left =>
      intro hlong t ht
      have hg := waiting_goes ha ht
      have hcounted := goes_counted hg hsound
      have hle := unfinished_le (goes_unfinished hg hstart)
      omega

theorem loop_ends_ready :
    Ends 0 16 [readyPass (List.replicate 16 0x7F)] (cleared 0 (fun _ => 0)) ↔
      ∀ t p, Reaches 0 16 [readyPass (List.replicate 16 0x7F)] (cleared 0 (fun _ => 0)) t p →
        ¬ Faulty t p := by
  apply loop_ends_iff 0 16 [readyPass (List.replicate 16 0x7F)] (fun _ => 0)
  · intro p hp _
    rw [List.mem_singleton.mp hp]
    exact Option.some_ne_none _
  · intro p hp received hr
    rw [List.mem_singleton.mp hp] at hr
    rw [readyPass_reads _ _ hr, List.length_replicate]
    decide

/-- The dock is gone: the descriptor is ready and every read returns 0. -/
def hungUp : List Pass := List.replicate 18 (readyPass [])

/-- After more iterations than a request of 16 bytes can need the loop still
goes round. -/
theorem hung_up_spins :
    readLoop 0 16 hungUp (cleared 0 (fun _ => 0)) = .waiting (cleared 0 (fun _ => 0)) ∧
    ¬ Ends 0 16 hungUp (cleared 0 (fun _ => 0)) := by
  have hspins : readLoop 0 16 hungUp (cleared 0 (fun _ => 0)) =
      .waiting (cleared 0 (fun _ => 0)) := rfl
  exact ⟨hspins, fun he => he.left (by decide +kernel) _ hspins⟩

end Wingray.WhisperReadLoop
