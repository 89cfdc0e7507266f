import Wingray.GuardedRun
import Wingray.Parties
import Wingray.RefBaseLedger

/-!
# A shared buffer between threads

Any number of threads hold references to one buffer and call it at once. A step
is one access of the count, one item copied or written, or one request for
memory. A thread that is told that it is the only owner writes in place, and a
copy is read item by item while the others go on.
-/

set_option autoImplicit false

namespace Wingray.SharedBufferThreads
open GuardedRun Parties
open RefBase (int32 int32_eq)

structure Shared (α : Type) where
  mRefs : ℤ
  data : List α
  /-- history: the storage has not been given back, how often it was, and whether
  anything was used after that -/
  allocated : Bool
  freed : ℕ
  fault : Bool

/-- Where a thread is: at the access of the named call that comes next. -/
inductive Point (α : Type) where
  | idle
  | acquire
  | release (keep : Bool)
  | decrement (keep : Bool)
  | clear (keep owner : Bool)
  | free
  | dealloc
  | edit
  | attemptEdit
  | editResize (newSize : ℕ)
  | resize (newSize : ℕ)
  | alloc (newSize : ℕ)
  | copy (size : ℕ) (done : List α)
  | reset
  /-- the program reads the items, or writes them in place as it has found and left them -/
  | reading (done : List α)
  | writing (mine : List α)
  deriving DecidableEq

/-- A thread with the references that it holds; one that has given the last one up and
kept the storage owns that. -/
structure Thread (α : Type) where
  point : Point α
  refs : ℕ
  owns : Bool

inductive Op where
  | acquire | release (keep : Bool) | dealloc | edit | attemptEdit | editResize (newSize : ℕ)
  | reset | read

variable {α : Type}

def Thread.empty : Thread α := ⟨.idle, 0, false⟩
def Thread.goto (th : Thread α) (p : Point α) : Thread α := { th with point := p }

def Thread.releases (th : Thread α) (keep : Bool) : Thread α :=
  { th with point := .release keep, refs := th.refs-1 }

def Op.start (th : Thread α) : Op → Thread α
  | .acquire => th.goto .acquire
  | .release keep => th.releases keep
  | .dealloc => { th with point := .dealloc, owns := false }
  | .edit => th.goto .edit
  | .attemptEdit => th.goto .attemptEdit
  | .editResize newSize => th.goto (.editResize newSize)
  | .reset => th.goto .reset
  | .read => th.goto (.reading [])

def Shared.giveBack (s : Shared α) : Shared α :=
  { s with allocated := false, freed := s.freed+1 }

def Shared.extend (s : Shared α) (done : List α) : List α :=
  done ++ (s.data.drop done.length).take 1

/-- One step of a thread; `granted` is the answer to its request for memory. -/
def advance (granted : Bool) (s : Shared α) (th : Thread α) : Shared α × Thread α :=
  match th.point with
  | .idle => (s, th)
  | .acquire =>
    ({ s with mRefs := int32 (s.mRefs+1) }, { th with point := .idle, refs := th.refs+1 })
  | .release keep => (s, th.goto (if s.mRefs = 1 then .clear keep true else .decrement keep))
  | .decrement keep =>
    ({ s with mRefs := int32 (s.mRefs-1) },
      th.goto (if s.mRefs = 1 then .clear keep false else .idle))
  | .clear keep _ =>
    ({ s with mRefs := 0 },
      if keep then { th with point := .idle, owns := true } else th.goto .free)
  | .free => (s.giveBack, th.goto .idle)
  | .dealloc =>
    if s.mRefs ≠ 0 then (s, { th with point := .idle, owns := true })
    else (s.giveBack, th.goto .idle)
  | .edit => (s, th.goto (if s.mRefs = 1 then .writing s.data else .alloc s.data.length))
  | .attemptEdit => (s, th.goto (if s.mRefs = 1 then .writing s.data else .idle))
  | .editResize newSize =>
    (s, th.goto (if s.mRefs = 1 then .resize newSize else .alloc newSize))
  | .resize newSize =>
    if s.data.length = newSize then (s, th.goto (.writing s.data))
    -- the moved buffer is another one, which the thread has for itself
    else if granted then (s.giveBack, { th with point := .idle, refs := th.refs-1 })
    else (s, th.goto (.alloc newSize))
  | .alloc newSize =>
    (s, th.goto (if granted then .copy (min newSize s.data.length) [] else .idle))
  | .copy size done =>
    (s, if done.length < size then th.goto (.copy size (s.extend done)) else th.releases false)
  | .reset => (s, if granted then th.releases false else th.goto .idle)
  | .reading done =>
    (s, th.goto (if done.length < s.data.length then .reading (s.extend done) else .idle))
  | .writing _ => (s, th)

def touch (s : Shared α) : Shared α := { s with fault := s.fault || !s.allocated }

variable {ι : Type} [DecidableEq ι]

structure State (α ι : Type) where
  shared : Shared α
  threads : ι → Thread α

inductive Label (α ι : Type) where
  | call (t : ι) (op : Op)
  | run (t : ι) (granted : Bool)
  | write (t : ι) (i : ℕ) (x : α)
  | written (t : ι)
  | give (t u : ι)

def passed (threads : ι → Thread α) (t u : ι) : ι → Thread α :=
  let left := Function.update threads t { threads t with refs := (threads t).refs-1 }
  Function.update left u { left u with refs := (left u).refs+1 }

def step (s : State α ι) : Label α ι → Option (State α ι)
  | .call t op =>
    match (s.threads t).point with
    | .idle => some { s with threads := Function.update s.threads t (op.start (s.threads t)) }
    | _ => none
  | .run t granted =>
    match (s.threads t).point with
    | .idle | .writing _ => none
    | _ =>
      let (shared, th) := advance granted (touch s.shared) (s.threads t)
      some ⟨shared, Function.update s.threads t th⟩
  | .write t i x =>
    match (s.threads t).point with
    | .writing mine => some ⟨{ touch s.shared with data := s.shared.data.set i x },
        Function.update s.threads t ((s.threads t).goto (.writing (mine.set i x)))⟩
    | _ => none
  | .written t =>
    match (s.threads t).point with
    | .writing _ =>
      some { s with threads := Function.update s.threads t ((s.threads t).goto .idle) }
    | _ => none
  | .give t u => some { s with threads := passed s.threads t u }

def Licensed (th : Thread α) : Op → Prop
  | .dealloc => th.owns = true
  | _ => 0 < th.refs

def Disciplined (s : State α ι) : Label α ι → Prop
  | .call t op => Licensed (s.threads t) op
  | .run _ _ | .write _ _ _ | .written _ => True
  | .give t _ => (s.threads t).point = .idle ∧ 0 < (s.threads t).refs

/-! ## What the threads hold -/

def Point.held : Point α → ℤ
  | .release _ | .decrement _ | .clear _ true => 1
  | _ => 0

/-- It is up to the thread to give the storage back. -/
def Point.doomed : Point α → ℤ
  | .clear _ false | .free | .dealloc => 1
  | _ => 0

def Thread.held (th : Thread α) : ℤ := th.refs+th.point.held
def Thread.doomed (th : Thread α) : ℤ := th.point.doomed+th.owns.toNat

/-- The count is that of the references, and the storage is there as long as there is
one, or one thread that is about to give it back. -/
structure Balanced (s : Shared α) (held doomed : ℤ) : Prop where
  counted : s.allocated = true → s.mRefs = held
  fault : s.fault = false
  freed : s.freed = if s.allocated then 0 else 1
  kept : s.allocated = false ∧ held = 0 ∧ doomed = 0 ∨
    s.allocated = true ∧ (0 < held ∧ doomed = 0 ∨ held = 0 ∧ doomed = 1)

def Sound (s : Shared α) (th : Thread α) : Prop :=
  match th.point with
  | .idle | .release _ | .decrement _ | .clear _ false | .free | .dealloc => True
  | .acquire | .edit | .attemptEdit | .editResize _ | .alloc _ | .reset => 0 < th.refs
  | .clear _ true => s.mRefs = 1
  | .resize _ => 0 < th.refs ∧ s.mRefs = 1
  | .copy _ done | .reading done => 0 < th.refs ∧ done <+: s.data
  | .writing mine => 0 < th.refs ∧ s.mRefs = 1 ∧ mine = s.data

variable [Fintype ι]

structure Inv (s : State α ι) : Prop where
  balanced : Balanced s.shared (total Thread.held s.threads) (total Thread.doomed s.threads)
  sound : ∀ t, Sound s.shared (s.threads t)

theorem refs_le_held (th : Thread α) : th.refs ≤ th.held := by
  have hpoint : 0 ≤ th.point.held := by
    simp only [Point.held]
    split <;> omega
  rw [Thread.held]
  omega

theorem held_nonneg (th : Thread α) : 0 ≤ th.held := by
  have hrefs := refs_le_held th
  omega

theorem doomed_nonneg (th : Thread α) : 0 ≤ th.doomed := by
  have hpoint : 0 ≤ th.point.doomed := by
    simp only [Point.doomed]
    split <;> omega
  rw [Thread.doomed]
  omega

theorem active_of_point {s : Shared α} {th : Thread α} (h : Sound s th) (hp : th.point ≠ .idle) :
    0 < th.held+th.doomed := by
  have hrefs : 0 < th.refs → 0 < th.held+th.doomed := by
    have hheld := refs_le_held th
    have hdoomed := doomed_nonneg th
    omega
  rw [Sound] at h
  cases hth : th.point with
  | idle => exact absurd hth hp
  | release keep | decrement keep =>
    simp only [Thread.held, Thread.doomed, hth, Point.held, Point.doomed]
    omega
  | clear keep owner =>
    cases owner <;>
    · simp only [Thread.held, Thread.doomed, hth, Point.held, Point.doomed]
      omega
  | free | dealloc =>
    simp only [Thread.held, Thread.doomed, hth, Point.held, Point.doomed]
    omega
  | acquire | edit | attemptEdit | editResize | alloc | reset =>
    rw [hth] at h
    exact hrefs h
  | resize | copy | reading | writing =>
    rw [hth] at h
    exact hrefs h.1

section Step

variable {s : State α ι} {t u : ι} {s' : Shared α} {th : Thread α}

omit [DecidableEq ι] in
theorem Inv.allocated (h : Inv s) (ht : 0 < (s.threads t).held+(s.threads t).doomed) :
    s.shared.allocated = true := by
  have hheld := le_total (f := s.threads) held_nonneg t
  have hdoomed := le_total (f := s.threads) doomed_nonneg t
  rcases h.balanced.kept with ⟨-, hh, hd⟩ | ⟨hallocated, -⟩
  · omega
  · exact hallocated

/-- Where one thread holds the only reference, the others hold none and have nothing
to do with the storage. -/
theorem Inv.alone (h : Inv s) (hu : 0 < (s.threads u).held) (hone : s.shared.mRefs = 1)
    (htu : t ≠ u) : (s.threads t).held = 0 ∧ (s.threads t).doomed = 0 := by
  have hdoomed := le_total (f := s.threads) doomed_nonneg t
  have hpair := pair_le_total (f := s.threads) held_nonneg htu
  have hle := le_total (f := s.threads) held_nonneg u
  have hheld := held_nonneg (s.threads t)
  have hdoom := doomed_nonneg (s.threads t)
  have hcount := h.balanced.counted (h.allocated (t := u) (by
    have := doomed_nonneg (s.threads u)
    omega))
  rcases h.balanced.kept with ⟨-, hh, hd⟩ | ⟨-, ⟨hh, hd⟩ | ⟨hh, hd⟩⟩ <;> constructor <;> omega

/-- What one thread does leaves the others sound: those that rely on being alone are not
there, and those that read find what they have read. -/
theorem Inv.others (h : Inv s) (ht : 0 < (s.threads t).held+(s.threads t).doomed)
    (hdata : s'.data = s.shared.data ∨ 0 < (s.threads t).held ∧ s.shared.mRefs = 1) (hut : u ≠ t) :
    Sound s' (s.threads u) := by
  have hu := h.sound u
  have hnot : 0 < (s.threads u).held → s.shared.mRefs ≠ 1 := by
    intro hheld hone
    obtain ⟨hzero, hfree⟩ := h.alone hheld hone hut.symm
    omega
  have hsame : 0 < (s.threads u).refs → s'.data = s.shared.data := by
    intro hrefs
    rcases hdata with heq | ⟨hheld, hone⟩
    · exact heq
    · have hzero := (h.alone hheld hone hut).1
      have hle := refs_le_held (s.threads u)
      omega
  have hsole : 0 < (s.threads u).refs → s.shared.mRefs ≠ 1 := by
    intro hrefs
    have hle := refs_le_held (s.threads u)
    exact hnot (by omega)
  rw [Sound] at hu ⊢
  cases hp : (s.threads u).point with
  | idle | release | decrement | free | dealloc => trivial
  | acquire | edit | attemptEdit | editResize | alloc | reset =>
    rw [hp] at hu
    exact hu
  | clear keep owner =>
    rw [hp] at hu
    cases owner with
    | false => trivial
    | true =>
      have hheld : 0 < (s.threads u).held := by
        simp only [Thread.held, hp, Point.held]
        omega
      exact absurd hu (hnot hheld)
  | resize =>
    rw [hp] at hu
    exact absurd hu.2 (hsole hu.1)
  | copy | reading =>
    rw [hp] at hu
    exact ⟨hu.1, by rw [hsame hu.1]; exact hu.2⟩
  | writing =>
    rw [hp] at hu
    exact absurd hu.2.1 (hsole hu.1)

/-- A step of one thread keeps the invariant where it keeps the balance. -/
theorem Inv.moves (h : Inv s) (ht : 0 < (s.threads t).held+(s.threads t).doomed)
    (hdata : s'.data = s.shared.data ∨ 0 < (s.threads t).held ∧ s.shared.mRefs = 1)
    (hbalanced : Balanced s' (total Thread.held s.threads-(s.threads t).held+th.held)
      (total Thread.doomed s.threads-(s.threads t).doomed+th.doomed))
    (hsound : Sound s' th) : Inv ⟨s', Function.update s.threads t th⟩ where
  balanced := by
    rw [← total_update, ← total_update] at hbalanced
    exact hbalanced
  sound u := by
    by_cases hut : u = t
    · subst hut
      simpa using hsound
    · show Sound s' (Function.update s.threads t th u)
      rw [Function.update_of_ne hut]
      exact h.others ht hdata hut

theorem Inv.goes (h : Inv s) (hp : (s.threads t).point ≠ .idle)
    (hheld : th.held = (s.threads t).held) (hdoomed : th.doomed = (s.threads t).doomed)
    (hsound : Sound s.shared th) : Inv ⟨s.shared, Function.update s.threads t th⟩ := by
  refine h.moves (active_of_point (h.sound t) hp) (.inl rfl) ?_ hsound
  rw [hheld, hdoomed, sub_add_cancel, sub_add_cancel]
  exact h.balanced

def ran (granted : Bool) (s : State α ι) (t : ι) : State α ι :=
  ⟨(advance granted s.shared (s.threads t)).1,
    Function.update s.threads t (advance granted s.shared (s.threads t)).2⟩

variable {granted : Bool}

omit [DecidableEq ι] in
theorem Inv.running (h : Inv s) (hp : (s.threads t).point ≠ .idle) :
    s.shared.allocated = true ∧ s.shared.mRefs = total Thread.held s.threads ∧
      s.shared.freed = 0 ∧
      (0 < total Thread.held s.threads ∧ total Thread.doomed s.threads = 0 ∨
        total Thread.held s.threads = 0 ∧ total Thread.doomed s.threads = 1) := by
  have hallocated := h.allocated (active_of_point (h.sound t) hp)
  refine ⟨hallocated, h.balanced.counted hallocated, ?_, ?_⟩
  · rw [h.balanced.freed, if_pos hallocated]
  · rcases h.balanced.kept with ⟨hnot, -⟩ | ⟨-, hcase⟩
    · exact absurd hallocated (by simp [hnot])
    · exact hcase

theorem acquire_inv (h : Inv s) (hroom : total Thread.held s.threads+1 < 2^31)
    (hp : (s.threads t).point = .acquire) : Inv (ran granted s t) := by
  have hsound := h.sound t
  rw [Sound, hp] at hsound
  have hcall : (s.threads t).point ≠ .idle := by simp [hp]
  obtain ⟨hallocated, hcount, -, hkept⟩ := h.running hcall
  have hle := le_total (f := s.threads) held_nonneg t
  simp only [ran, advance, hp]
  refine h.moves (active_of_point (h.sound t) hcall) (.inl rfl) ?_ trivial
  simp only [Thread.held, Thread.doomed, hp, Point.held, Point.doomed] at hle ⊢
  refine ⟨fun _ => ?_, h.balanced.fault, h.balanced.freed, .inr ⟨hallocated, .inl ⟨?_, ?_⟩⟩⟩
  · rw [hcount, int32_eq] <;> push_cast <;> omega
  · push_cast
    omega
  · omega

theorem release_inv {keep : Bool} (h : Inv s) (hp : (s.threads t).point = .release keep) :
    Inv (ran granted s t) := by
  simp only [ran, advance, hp]
  split_ifs with hone <;>
  · refine h.goes (by simp [hp]) ?_ ?_ ?_
    · simp [Thread.held, Thread.goto, hp, Point.held]
    · simp [Thread.doomed, Thread.goto, hp, Point.doomed]
    · simp [Sound, Thread.goto, hone]

theorem decrement_inv {keep : Bool} (h : Inv s) (hroom : total Thread.held s.threads+1 < 2^31)
    (hp : (s.threads t).point = .decrement keep) : Inv (ran granted s t) := by
  have hcall : (s.threads t).point ≠ .idle := by simp [hp]
  obtain ⟨hallocated, hcount, -, hkept⟩ := h.running hcall
  have hle := le_total (f := s.threads) held_nonneg t
  have hdoomed := le_total (f := s.threads) doomed_nonneg t
  simp only [ran, advance, hp]
  split_ifs with hone <;>
  · refine h.moves (active_of_point (h.sound t) hcall) (.inl rfl) ?_ trivial
    simp only [Thread.held, Thread.doomed, Thread.goto, hp, Point.held, Point.doomed]
      at hle hdoomed ⊢
    refine ⟨fun _ => ?_, h.balanced.fault, h.balanced.freed, .inr ⟨hallocated, ?_⟩⟩
    · show int32 (s.shared.mRefs-1) = _
      rw [int32_eq] <;> omega
    · omega

theorem clear_inv {keep owner : Bool} (h : Inv s) (hp : (s.threads t).point = .clear keep owner) :
    Inv (ran granted s t) := by
  have hsound := h.sound t
  rw [Sound, hp] at hsound
  have hcall : (s.threads t).point ≠ .idle := by simp [hp]
  obtain ⟨hallocated, hcount, -, hkept⟩ := h.running hcall
  have hle := le_total (f := s.threads) held_nonneg t
  have hdoomed := le_total (f := s.threads) doomed_nonneg t
  simp only [ran, advance, hp]
  cases owner <;> cases keep <;>
  · refine h.moves (active_of_point (h.sound t) hcall) (.inl rfl) ?_ trivial
    simp only [Thread.held, Thread.doomed, Thread.goto, hp, Point.held, Point.doomed, if_true,
      Bool.false_eq_true, if_false, Bool.toNat_true] at hsound hle hdoomed ⊢
    refine ⟨fun _ => ?_, h.balanced.fault, h.balanced.freed, .inr ⟨hallocated, .inr ⟨?_, ?_⟩⟩⟩
    · show (0 : ℤ) = _
      omega
    · omega
    · push_cast
      omega

theorem Inv.gives_back (h : Inv s) (hp : (s.threads t).point ≠ .idle) (hidle : th.point = .idle)
    (hheld : total Thread.held s.threads-(s.threads t).held+th.held = 0)
    (hdoomed : total Thread.doomed s.threads-(s.threads t).doomed+th.doomed = 0) :
    Inv ⟨s.shared.giveBack, Function.update s.threads t th⟩ := by
  obtain ⟨-, -, hfreed, -⟩ := h.running hp
  refine h.moves (active_of_point (h.sound t) hp) (.inl rfl) ?_ (by rw [Sound, hidle]; trivial)
  refine ⟨fun hnot => absurd hnot (by simp [Shared.giveBack]), h.balanced.fault, ?_,
    .inl ⟨rfl, hheld, hdoomed⟩⟩
  simp [Shared.giveBack, hfreed]

theorem free_inv (h : Inv s) (hp : (s.threads t).point = .free) : Inv (ran granted s t) := by
  have hcall : (s.threads t).point ≠ .idle := by simp [hp]
  obtain ⟨-, -, -, hkept⟩ := h.running hcall
  have hle := le_total (f := s.threads) held_nonneg t
  have hdoomed := le_total (f := s.threads) doomed_nonneg t
  simp only [ran, advance, hp]
  refine h.gives_back hcall rfl ?_ ?_ <;>
  · simp only [Thread.held, Thread.doomed, Thread.goto, hp, Point.held, Point.doomed]
      at hle hdoomed ⊢
    omega

theorem dealloc_inv (h : Inv s) (hp : (s.threads t).point = .dealloc) : Inv (ran granted s t) := by
  have hcall : (s.threads t).point ≠ .idle := by simp [hp]
  obtain ⟨-, hcount, -, hkept⟩ := h.running hcall
  have hle := le_total (f := s.threads) held_nonneg t
  have hdoomed := le_total (f := s.threads) doomed_nonneg t
  simp only [Thread.held, Thread.doomed, hp, Point.held, Point.doomed] at hle hdoomed
  simp only [ran, advance, hp]
  rw [if_neg (by omega)]
  refine h.gives_back hcall rfl ?_ ?_ <;>
  · simp only [Thread.held, Thread.doomed, Thread.goto, hp, Point.held, Point.doomed]
    omega

theorem Inv.turns {p q : Point α} (h : Inv s) (hp : (s.threads t).point = p) (hcall : p ≠ .idle)
    (hzero : p.held = 0 ∧ p.doomed = 0) (hq : q.held = 0 ∧ q.doomed = 0)
    (hsound : Sound s.shared ((s.threads t).goto q)) :
    Inv ⟨s.shared, Function.update s.threads t ((s.threads t).goto q)⟩ := by
  refine h.goes (by rwa [hp]) ?_ ?_ hsound
  · simp [Thread.held, Thread.goto, hp, hzero.1, hq.1]
  · simp [Thread.doomed, Thread.goto, hp, hzero.2, hq.2]

theorem Inv.releases {p : Point α} {keep : Bool} (h : Inv s) (hp : (s.threads t).point = p)
    (hcall : p ≠ .idle) (hzero : p.held = 0 ∧ p.doomed = 0) (hrefs : 0 < (s.threads t).refs) :
    Inv ⟨s.shared, Function.update s.threads t ((s.threads t).releases keep)⟩ := by
  refine h.goes (by rwa [hp]) ?_ ?_ trivial
  · show (((s.threads t).refs-1 : ℕ) : ℤ)+1 = (s.threads t).refs+(s.threads t).point.held
    rw [hp, hzero.1]
    omega
  · show (0 : ℤ)+_ = (s.threads t).point.doomed+_
    rw [hp, hzero.2]
    rfl

theorem edit_inv (h : Inv s) (hp : (s.threads t).point = .edit) : Inv (ran granted s t) := by
  have hsound := h.sound t
  rw [Sound, hp] at hsound
  simp only [ran, advance, hp]
  split_ifs with hone
  · exact h.turns hp (by simp) ⟨rfl, rfl⟩ ⟨rfl, rfl⟩ ⟨hsound, hone, rfl⟩
  · exact h.turns hp (by simp) ⟨rfl, rfl⟩ ⟨rfl, rfl⟩ hsound

theorem attemptEdit_inv (h : Inv s) (hp : (s.threads t).point = .attemptEdit) :
    Inv (ran granted s t) := by
  have hsound := h.sound t
  rw [Sound, hp] at hsound
  simp only [ran, advance, hp]
  split_ifs with hone
  · exact h.turns hp (by simp) ⟨rfl, rfl⟩ ⟨rfl, rfl⟩ ⟨hsound, hone, rfl⟩
  · exact h.turns hp (by simp) ⟨rfl, rfl⟩ ⟨rfl, rfl⟩ trivial

theorem editResize_inv {newSize : ℕ} (h : Inv s)
    (hp : (s.threads t).point = .editResize newSize) : Inv (ran granted s t) := by
  have hsound := h.sound t
  rw [Sound, hp] at hsound
  simp only [ran, advance, hp]
  split_ifs with hone
  · exact h.turns hp (by simp) ⟨rfl, rfl⟩ ⟨rfl, rfl⟩ ⟨hsound, hone⟩
  · exact h.turns hp (by simp) ⟨rfl, rfl⟩ ⟨rfl, rfl⟩ hsound

theorem resize_inv {newSize : ℕ} (h : Inv s) (hp : (s.threads t).point = .resize newSize) :
    Inv (ran granted s t) := by
  have hsound := h.sound t
  rw [Sound, hp] at hsound
  obtain ⟨hrefs, hone⟩ := hsound
  have hcall : (s.threads t).point ≠ .idle := by simp [hp]
  simp only [ran, advance, hp]
  split_ifs with hsize hgranted
  · exact h.turns hp (by simp) ⟨rfl, rfl⟩ ⟨rfl, rfl⟩ ⟨hrefs, hone, rfl⟩
  · obtain ⟨-, hcount, -, hkept⟩ := h.running hcall
    have hle := le_total (f := s.threads) held_nonneg t
    have hdoomed := le_total (f := s.threads) doomed_nonneg t
    refine h.gives_back hcall rfl ?_ ?_ <;>
    · simp only [Thread.held, Thread.doomed, hp, Point.held, Point.doomed] at hle hdoomed ⊢
      omega
  · exact h.turns hp (by simp) ⟨rfl, rfl⟩ ⟨rfl, rfl⟩ hrefs

theorem alloc_inv {newSize : ℕ} (h : Inv s) (hp : (s.threads t).point = .alloc newSize) :
    Inv (ran granted s t) := by
  have hsound := h.sound t
  rw [Sound, hp] at hsound
  simp only [ran, advance, hp]
  split_ifs
  · exact h.turns hp (by simp) ⟨rfl, rfl⟩ ⟨rfl, rfl⟩ ⟨hsound, List.nil_prefix⟩
  · exact h.turns hp (by simp) ⟨rfl, rfl⟩ ⟨rfl, rfl⟩ trivial

theorem reset_inv (h : Inv s) (hp : (s.threads t).point = .reset) : Inv (ran granted s t) := by
  have hsound := h.sound t
  rw [Sound, hp] at hsound
  simp only [ran, advance, hp]
  split_ifs
  · exact h.releases hp (by simp) ⟨rfl, rfl⟩ hsound
  · exact h.turns hp (by simp) ⟨rfl, rfl⟩ ⟨rfl, rfl⟩ trivial

theorem extend_prefix {s : Shared α} {done : List α} (h : done <+: s.data) :
    s.extend done <+: s.data := by
  obtain ⟨rest, hrest⟩ := h
  refine ⟨rest.drop 1, ?_⟩
  rw [Shared.extend, ← hrest, List.drop_left, List.append_assoc, List.take_append_drop]

theorem copy_inv {size : ℕ} {done : List α} (h : Inv s)
    (hp : (s.threads t).point = .copy size done) : Inv (ran granted s t) := by
  have hsound := h.sound t
  rw [Sound, hp] at hsound
  obtain ⟨hrefs, hprefix⟩ := hsound
  simp only [ran, advance, hp]
  split_ifs
  · exact h.turns hp (by simp) ⟨rfl, rfl⟩ ⟨rfl, rfl⟩ ⟨hrefs, extend_prefix hprefix⟩
  · exact h.releases hp (by simp) ⟨rfl, rfl⟩ hrefs

theorem reading_inv {done : List α} (h : Inv s) (hp : (s.threads t).point = .reading done) :
    Inv (ran granted s t) := by
  have hsound := h.sound t
  rw [Sound, hp] at hsound
  obtain ⟨hrefs, hprefix⟩ := hsound
  simp only [ran, advance, hp]
  split_ifs
  · exact h.turns hp (by simp) ⟨rfl, rfl⟩ ⟨rfl, rfl⟩ ⟨hrefs, extend_prefix hprefix⟩
  · exact h.turns hp (by simp) ⟨rfl, rfl⟩ ⟨rfl, rfl⟩ trivial

omit [DecidableEq ι] in
theorem Inv.touched (h : Inv s) (hp : (s.threads t).point ≠ .idle) :
    touch s.shared = s.shared := by
  obtain ⟨hallocated, -⟩ := h.running hp
  have hfault : (s.shared.fault || !s.shared.allocated) = s.shared.fault := by
    simp [hallocated]
  rw [touch, hfault]

theorem run_inv (h : Inv s) (hroom : total Thread.held s.threads+1 < 2^31)
    (hp : (s.threads t).point ≠ .idle) (hnot : ∀ mine, (s.threads t).point ≠ .writing mine) :
    Inv (ran granted s t) := by
  cases hpt : (s.threads t).point with
  | idle => exact absurd hpt hp
  | acquire => exact acquire_inv h hroom hpt
  | release keep => exact release_inv h hpt
  | decrement keep => exact decrement_inv h hroom hpt
  | clear keep owner => exact clear_inv h hpt
  | free => exact free_inv h hpt
  | dealloc => exact dealloc_inv h hpt
  | edit => exact edit_inv h hpt
  | attemptEdit => exact attemptEdit_inv h hpt
  | editResize newSize => exact editResize_inv h hpt
  | resize newSize => exact resize_inv h hpt
  | alloc newSize => exact alloc_inv h hpt
  | copy size done => exact copy_inv h hpt
  | reset => exact reset_inv h hpt
  | reading done => exact reading_inv h hpt
  | writing mine => exact absurd hpt (hnot mine)

theorem write_inv {mine : List α} {i : ℕ} {x : α} (h : Inv s)
    (hp : (s.threads t).point = .writing mine) :
    Inv ⟨{ s.shared with data := s.shared.data.set i x },
      Function.update s.threads t ((s.threads t).goto (.writing (mine.set i x)))⟩ := by
  have hsound := h.sound t
  rw [Sound, hp] at hsound
  obtain ⟨hrefs, hone, hmine⟩ := hsound
  have hcall : (s.threads t).point ≠ .idle := by simp [hp]
  have hheld : ((s.threads t).goto (.writing (mine.set i x))).held = (s.threads t).held := by
    simp [Thread.held, Thread.goto, hp, Point.held]
  have hdoomed : ((s.threads t).goto (.writing (mine.set i x))).doomed = (s.threads t).doomed := by
    simp [Thread.doomed, Thread.goto, hp, Point.doomed]
  have hle := refs_le_held (s.threads t)
  refine h.moves (active_of_point (h.sound t) hcall) (.inr ⟨by omega, hone⟩) ?_
    ⟨hrefs, hone, by rw [hmine]⟩
  rw [hheld, hdoomed, sub_add_cancel, sub_add_cancel]
  exact ⟨h.balanced.counted, h.balanced.fault, h.balanced.freed, h.balanced.kept⟩

theorem call_inv {op : Op} (h : Inv s) (hp : (s.threads t).point = .idle)
    (hlicensed : Licensed (s.threads t) op) :
    Inv { s with threads := Function.update s.threads t (op.start (s.threads t)) } := by
  have hrefs := refs_le_held (s.threads t)
  have hheld : (s.threads t).held = (s.threads t).refs := by
    simp [Thread.held, hp, Point.held]
  have hdoomed : (s.threads t).doomed = (s.threads t).owns.toNat := by
    simp [Thread.doomed, hp, Point.doomed]
  have hstart : (op.start (s.threads t)).held = (s.threads t).held ∧
      (op.start (s.threads t)).doomed = (s.threads t).doomed ∧
      Sound s.shared (op.start (s.threads t)) ∧ 0 < (s.threads t).held+(s.threads t).doomed := by
    cases op with
    | dealloc =>
      have howns : (s.threads t).owns = true := hlicensed
      rw [hheld, hdoomed, howns]
      refine ⟨?_, rfl, trivial, by simp⟩
      simp [Op.start, Thread.held, Point.held]
    | release keep =>
      have hpos : 0 < (s.threads t).refs := hlicensed
      rw [hheld, hdoomed]
      refine ⟨?_, ?_, trivial, by omega⟩
      · simp only [Op.start, Thread.releases, Thread.held, Point.held]
        omega
      · simp [Op.start, Thread.releases, Thread.doomed, Point.doomed]
    | acquire | edit | attemptEdit | editResize | reset =>
      have hpos : 0 < (s.threads t).refs := hlicensed
      rw [hheld, hdoomed]
      refine ⟨?_, ?_, hpos, by omega⟩
      · simp [Op.start, Thread.goto, Thread.held, Point.held]
      · simp [Op.start, Thread.goto, Thread.doomed, Point.doomed]
    | read =>
      have hpos : 0 < (s.threads t).refs := hlicensed
      rw [hheld, hdoomed]
      refine ⟨?_, ?_, ⟨hpos, List.nil_prefix⟩, by omega⟩
      · simp [Op.start, Thread.goto, Thread.held, Point.held]
      · simp [Op.start, Thread.goto, Thread.doomed, Point.doomed]
  obtain ⟨hsame, hown, hsound, hactive⟩ := hstart
  refine h.moves hactive (.inl rfl) ?_ hsound
  rw [hsame, hown, sub_add_cancel, sub_add_cancel]
  exact h.balanced

omit [DecidableEq ι] [Fintype ι] in
theorem Sound.more {shared : Shared α} {th th' : Thread α} (h : Sound shared th)
    (hp : th'.point = th.point) (hrefs : th.refs ≤ th'.refs) : Sound shared th' := by
  have hpos : 0 < th.refs → 0 < th'.refs := fun h0 => lt_of_lt_of_le h0 hrefs
  rw [Sound] at h ⊢
  rw [hp]
  cases hth : th.point with
  | idle | release | decrement | free | dealloc => trivial
  | acquire | edit | attemptEdit | editResize | alloc | reset =>
    rw [hth] at h
    exact hpos h
  | clear keep owner =>
    rw [hth] at h
    cases owner <;> exact h
  | resize | copy | reading | writing =>
    rw [hth] at h
    exact ⟨hpos h.1, h.2⟩

omit [Fintype ι] in
theorem passed_point (threads : ι → Thread α) (t u v : ι) :
    (passed threads t u v).point = (threads v).point := by
  simp only [passed, Function.update_apply]
  split_ifs <;> simp_all

omit [Fintype ι] in
theorem passed_refs {threads : ι → Thread α} {v : ι} (hv : v ≠ t) :
    (threads v).refs ≤ (passed threads t u v).refs := by
  by_cases hvu : v = u
  · subst hvu
    simp [passed, hv]
  · simp [passed, hvu, hv]

theorem passed_total {m : Thread α → ℤ} {n : ℤ} {threads : ι → Thread α}
    (hlose : m { threads t with refs := (threads t).refs-1 } = m (threads t)-n)
    (hgain : ∀ th : Thread α, m { th with refs := th.refs+1 } = m th+n) :
    total m (passed threads t u) = total m threads := by
  rw [passed, total_update, total_update, hgain, hlose]
  omega

theorem give_inv (h : Inv s) (hp : (s.threads t).point = .idle) (hrefs : 0 < (s.threads t).refs) :
    Inv { s with threads := passed s.threads t u } where
  balanced := by
    have hheld : total Thread.held (passed s.threads t u) = total Thread.held s.threads := by
      refine passed_total (n := 1) ?_ fun th => ?_
      · simp only [Thread.held]
        omega
      · simp only [Thread.held]
        push_cast
        omega
    have hdoomed : total Thread.doomed (passed s.threads t u) = total Thread.doomed s.threads :=
      passed_total (n := 0) (by simp [Thread.doomed]) fun th => by simp [Thread.doomed]
    show Balanced s.shared _ _
    rw [hheld, hdoomed]
    exact h.balanced
  sound v := by
    by_cases hv : v = t
    · subst hv
      show Sound s.shared (passed s.threads v u v)
      rw [Sound, passed_point, hp]
      trivial
    · exact (h.sound v).more (passed_point s.threads t u v) (passed_refs hv)

def Proper (s : State α ι) (l : Label α ι) : Prop :=
  Disciplined s l ∧ total Thread.held s.threads+1 < 2^31

theorem step_inv {s s' : State α ι} {l : Label α ι} (h : Inv s) (hok : Proper s l)
    (hs : step s l = some s') : Inv s' := by
  cases l with
  | call t op =>
    simp only [step] at hs
    split at hs
    · rename_i hp
      obtain rfl := Option.some.inj hs
      exact call_inv h hp hok.1
    · cases hs
  | run t granted =>
    simp only [step] at hs
    split at hs
    · cases hs
    · cases hs
    · rename_i hidle hwriting
      have hp : (s.threads t).point ≠ .idle := hidle
      rw [h.touched hp] at hs
      obtain rfl := Option.some.inj hs
      exact run_inv h hok.2 hp hwriting
  | write t i x =>
    simp only [step] at hs
    split at hs
    · rename_i mine hp
      have hcall : (s.threads t).point ≠ .idle := by simp [hp]
      rw [h.touched hcall] at hs
      obtain rfl := Option.some.inj hs
      exact write_inv h hp
    · cases hs
  | written t =>
    simp only [step] at hs
    split at hs
    · rename_i mine hp
      obtain rfl := Option.some.inj hs
      exact h.turns hp (by simp) ⟨rfl, rfl⟩ ⟨rfl, rfl⟩ trivial
    · cases hs
  | give t u =>
    obtain rfl := Option.some.inj hs
    exact give_inv h hok.1.1 hok.1.2

end Step

/-! ## Whole runs -/

def allocated (data : List α) (t : ι) : State α ι where
  shared := { mRefs := 1, data := data, allocated := true, freed := 0, fault := false }
  threads := Function.update (fun _ => Thread.empty) t ⟨.idle, 1, false⟩

theorem allocated_inv (data : List α) (t : ι) : Inv (allocated data t) where
  balanced := by
    have hheld : total Thread.held (allocated data t).threads = 1 := by
      have hempty : total Thread.held (fun _ : ι => (Thread.empty : Thread α)) = 0 :=
        total_zero fun _ => rfl
      rw [allocated, total_update, hempty]
      rfl
    have hdoomed : total Thread.doomed (allocated data t).threads = 0 := by
      have hempty : total Thread.doomed (fun _ : ι => (Thread.empty : Thread α)) = 0 :=
        total_zero fun _ => rfl
      rw [allocated, total_update, hempty]
      rfl
    rw [hheld, hdoomed]
    exact ⟨fun _ => rfl, rfl, rfl, .inr ⟨rfl, .inl ⟨by decide, rfl⟩⟩⟩
  sound u := by
    have hidle : ((allocated data t).threads u).point = .idle := by
      simp only [allocated, Function.update_apply]
      split_ifs <;> rfl
    rw [Sound, hidle]
    trivial

theorem empty_of_zero {shared : Shared α} {th : Thread α} (h : Sound shared th)
    (hheld : th.held = 0) (hdoomed : th.doomed = 0) : th = Thread.empty := by
  have hp : th.point = .idle := by
    by_contra hcall
    have hactive := active_of_point h hcall
    omega
  simp only [Thread.held, Thread.doomed, hp, Point.held, Point.doomed] at hheld hdoomed
  have hrefs : th.refs = 0 := by omega
  have howns : th.owns = false := by
    cases hown : th.owns with
    | false => rfl
    | true => simp [hown] at hdoomed
  cases th
  simp_all [Thread.empty]

def Alone (s : State α ι) (t : ι) : Prop := ∀ u, u ≠ t → s.threads u = Thread.empty

structure Safe (s : State α ι) : Prop where
  fault : s.shared.fault = false
  freed : s.shared.freed ≤ 1
  lives : ∀ t, 0 < (s.threads t).refs →
    s.shared.allocated = true ∧ s.shared.mRefs = total Thread.held s.threads
  copied : ∀ t size done, (s.threads t).point = .copy size done → done <+: s.shared.data
  read : ∀ t done, (s.threads t).point = .reading done → done <+: s.shared.data
  written : ∀ t mine, (s.threads t).point = .writing mine → mine = s.shared.data ∧ Alone s t
  kept : ∀ t, (s.threads t).owns = true → s.shared.allocated = true ∧ Alone s t

theorem Inv.safe {s : State α ι} (h : Inv s) : Safe s where
  fault := h.balanced.fault
  freed := by
    rw [h.balanced.freed]
    split <;> omega
  lives t hrefs := by
    have hheld := refs_le_held (s.threads t)
    have hdoomed := doomed_nonneg (s.threads t)
    have hallocated := h.allocated (t := t) (by omega)
    exact ⟨hallocated, h.balanced.counted hallocated⟩
  copied t size done hp := by
    have hsound := h.sound t
    rw [Sound, hp] at hsound
    exact hsound.2
  read t done hp := by
    have hsound := h.sound t
    rw [Sound, hp] at hsound
    exact hsound.2
  written t mine hp := by
    have hsound := h.sound t
    rw [Sound, hp] at hsound
    refine ⟨hsound.2.2, fun u hut => ?_⟩
    have hheld := refs_le_held (s.threads t)
    obtain ⟨hzero, hfree⟩ := h.alone (u := t) (by omega) hsound.2.1 hut
    exact empty_of_zero (h.sound u) hzero hfree
  kept t howns := by
    have hdoom : (s.threads t).doomed = (s.threads t).point.doomed+1 := by
      rw [Thread.doomed, howns]
      rfl
    have hpoint : 0 ≤ (s.threads t).point.doomed := by
      simp only [Point.doomed]
      split <;> omega
    have hheld := held_nonneg (s.threads t)
    have hle := le_total (f := s.threads) doomed_nonneg t
    refine ⟨h.allocated (t := t) (by omega), fun u hut => ?_⟩
    have hpair := pair_le_total (f := s.threads) doomed_nonneg hut
    have hother := le_total (f := s.threads) held_nonneg u
    have hnonneg := held_nonneg (s.threads u)
    have hpos := doomed_nonneg (s.threads u)
    rcases h.balanced.kept with ⟨-, hh, hd⟩ | ⟨-, ⟨hh, hd⟩ | ⟨hh, hd⟩⟩ <;>
    · exact empty_of_zero (h.sound u) (by omega) (by omega)

theorem run_kept {s s' : State α ι} {ls : List (Label α ι)} (h : Inv s)
    (hr : Run step Proper s ls s') : Inv s' :=
  hr.invariant Inv (fun _ _ _ hinv hok hs => step_inv hinv hok hs) h

variable {data : List α} {t : ι} {ls : List (Label α ι)} {s : State α ι}

/-- In every interleaving: nothing is used after it was given back, and that happens once
at most; a copy or a read has what the buffer holds; who writes in place is alone and
finds its own writes only. -/
theorem buffer_safe (hr : Run step Proper (allocated data t) ls s) : Safe s :=
  (run_kept (allocated_inv data t) hr).safe

/-- Between calls the storage is there exactly if a thread has a reference or has kept it
for itself. -/
theorem storage_released (hr : Run step Proper (allocated data t) ls s)
    (hidle : ∀ u, (s.threads u).point = .idle) :
    (s.shared.allocated = true ↔ ∃ u, 0 < (s.threads u).refs ∨ (s.threads u).owns = true) ∧
      s.shared.freed = if s.shared.allocated then 0 else 1 := by
  have h := run_kept (allocated_inv data t) hr
  have hrest : ∀ u, (s.threads u).held = (s.threads u).refs ∧
      (s.threads u).doomed = (s.threads u).owns.toNat := fun u => by
    simp [Thread.held, Thread.doomed, hidle u, Point.held, Point.doomed]
  refine ⟨⟨fun hallocated => ?_, fun ⟨u, hu⟩ => ?_⟩, h.balanced.freed⟩
  · rcases h.balanced.kept with ⟨hnot, -⟩ | ⟨-, ⟨hpos, -⟩ | ⟨-, hone⟩⟩
    · exact absurd hallocated (by simp [hnot])
    · obtain ⟨u, hu⟩ := exists_of_total_pos hpos
      rw [(hrest u).1] at hu
      exact ⟨u, .inl (by omega)⟩
    · obtain ⟨u, hu⟩ := exists_of_total_pos (m := Thread.doomed) (f := s.threads) (by omega)
      rw [(hrest u).2] at hu
      refine ⟨u, .inr ?_⟩
      cases hown : (s.threads u).owns with
      | true => rfl
      | false =>
        rw [hown] at hu
        exact absurd hu (by decide)
  · refine h.allocated (t := u) ?_
    obtain ⟨hheld, hdoomed⟩ := hrest u
    rcases hu with hrefs | hown
    · omega
    · rw [hdoomed, hheld, hown, Bool.toNat_true]
      omega

instance (th : Thread α) : ∀ op, Decidable (Licensed th op)
  | .dealloc => inferInstanceAs (Decidable (_ = _))
  | .acquire | .release _ | .edit | .attemptEdit | .editResize _ | .reset | .read =>
    inferInstanceAs (Decidable (_ < _))

instance [DecidableEq α] (s : State α ι) : ∀ l, Decidable (Disciplined s l)
  | .call _ _ => inferInstanceAs (Decidable (Licensed _ _))
  | .run _ _ | .write _ _ _ | .written _ => inferInstanceAs (Decidable True)
  | .give _ _ => inferInstanceAs (Decidable (_ ∧ _))

instance [DecidableEq α] (s : State α ι) (l : Label α ι) : Decidable (Proper s l) :=
  inferInstanceAs (Decidable (_ ∧ _))

def whole (t : Bool) (op : Op) (steps : ℕ) : List (Label ℕ Bool) :=
  .call t op::List.replicate steps (.run t true)

def copying : List (Label ℕ Bool) :=
  whole false .acquire 1 ++ [.give false true] ++ whole true .edit 3 ++
    whole false .attemptEdit 1 ++ whole false (.release true) 2 ++ [.run true true]

theorem buffer_safe_copying : ∃ s : State ℕ Bool,
    (s.threads true).point = .copy 2 [5, 6] ∧ [5, 6] <+: s.shared.data ∧
      s.shared.fault = false := by
  have hend : (final step Proper (allocated [5, 6] false) copying).any (fun s =>
      decide ((s.threads true).point = .copy 2 [5, 6])) = true := by decide +kernel
  obtain ⟨s, hs, hp⟩ := (Option.any_eq_true _ _).mp hend
  have hsafe := buffer_safe (final_run hs)
  exact ⟨s, of_decide_eq_true hp, hsafe.copied true 2 [5, 6] (of_decide_eq_true hp), hsafe.fault⟩

theorem storage_released_copying : ∃ s : State ℕ Bool,
    s.shared.allocated = false ∧ s.shared.freed = 1 := by
  have hend : (final step Proper (allocated [5, 6] false)
      (copying ++ List.replicate 4 (.run true true))).any (fun s => decide (∀ u,
        (s.threads u).point = .idle ∧ (s.threads u).refs = 0 ∧ (s.threads u).owns = false)) =
      true := by decide +kernel
  obtain ⟨s, hs, hrest⟩ := (Option.any_eq_true _ _).mp hend
  have hrest := of_decide_eq_true hrest
  obtain ⟨hiff, hfreed⟩ := storage_released (final_run hs) (fun u => (hrest u).1)
  have hgone : s.shared.allocated = false := by
    refine Bool.eq_false_iff.mpr fun hallocated => ?_
    obtain ⟨u, hrefs | howns⟩ := hiff.mp hallocated
    · have hnone := (hrest u).2.1
      omega
    · rw [(hrest u).2.2] at howns
      cases howns
  exact ⟨s, hgone, by rw [hfreed, hgone]; rfl⟩

end Wingray.SharedBufferThreads
