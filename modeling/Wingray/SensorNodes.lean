import Wingray.GuardedRun
import Wingray.ResourceLedger

/-!
# The descriptors of the sensors over their lifetime

A sensor looks for its input node when it is constructed, opens and closes its
control node as it is switched, and closes both when it is destroyed. Any number
of sensors come and go, and the rest of the process opens and closes its own
descriptors meanwhile. A descriptor that would be -1 is `none`.
-/

set_option autoImplicit false

namespace Wingray.SensorNodes
open GuardedRun ResourceLedger

/-- An entry of the directory, whether its node can be opened, and what
`EVIOCGNAME` then writes. -/
structure Dirent where
  d_name : String
  opens : Bool
  label : Option String

structure System where
  newFd : List ℕ → ℕ
  newFd_fresh : ∀ fds, newFd fds ∉ fds

def close (fds : List ℕ) : Option ℕ → List ℕ
  | none => fds
  | some fd => fds.filter (fun r => r ∉ [fd])

def Dirent.skipped (de : Dirent) : Bool := de.d_name = "." || de.d_name = ".."

variable (sys : System)

/-- The loop over the entries, with the descriptor that is left in `fd`. -/
def search (inputName : String) : List Dirent → List ℕ → Option ℕ × List ℕ
  | [], fds => (none, fds)
  | de::entries, fds =>
    if de.skipped then search inputName entries fds
    else if de.opens then
      let fd := sys.newFd fds
      if de.label.getD "" = inputName then (some fd, fds++[fd])
      else search inputName entries (close (fds++[fd]) (some fd))
    else search inputName entries fds

/-- The directory has a descriptor of its own while it is read. -/
def openInput (inputName : String) (dir : Option (List Dirent)) (fds : List ℕ) :
    Option ℕ × List ℕ :=
  match dir with
  | none => (none, fds)
  | some entries =>
    let dirFd := sys.newFd fds
    let found := search sys inputName entries (fds++[dirFd])
    (found.1, close found.2 (some dirFd))

structure Sensor where
  dev_name : Bool
  dev_fd : Option ℕ
  data_fd : Option ℕ

variable {ι : Type} [DecidableEq ι]

structure Process (ι : Type) where
  sensors : ι → Option Sensor
  outside : List ℕ
  fds : List ℕ

inductive Call (ι : Type) where
  | construct (k : ι) (dev_name : Bool) (data_name : String) (dir : Option (List Dirent))
  | openDevice (k : ι) (opens : Bool)
  | closeDevice (k : ι)
  | destroy (k : ι)
  | outsideOpen
  | outsideClose (fd : ℕ)

def Process.put (s : Process ι) (k : ι) (x : Option Sensor) (fds : List ℕ) : Process ι :=
  { s with sensors := Function.update s.sensors k x, fds := fds }

def construct (s : Process ι) (k : ι) (dev_name : Bool) (data_name : String)
    (dir : Option (List Dirent)) : Process ι :=
  let found := openInput sys data_name dir s.fds
  s.put k (some ⟨dev_name, none, found.1⟩) found.2

def openDevice (s : Process ι) (k : ι) (x : Sensor) (opens : Bool) : Process ι :=
  if x.dev_fd = none ∧ x.dev_name = true then
    if opens then
      s.put k (some { x with dev_fd := some (sys.newFd s.fds) }) (s.fds++[sys.newFd s.fds])
    else s
  else s

def closeDevice (s : Process ι) (k : ι) (x : Sensor) : Process ι :=
  s.put k (some { x with dev_fd := none }) (close s.fds x.dev_fd)

def destroy (s : Process ι) (k : ι) (x : Sensor) : Process ι :=
  s.put k none (close (close s.fds x.data_fd) x.dev_fd)

/-- A call on a sensor that is not there, or is there already, gives no step. -/
def step (s : Process ι) : Call ι → Option (Process ι)
  | .construct k dev_name data_name dir =>
    if (s.sensors k).isSome then none else some (construct sys s k dev_name data_name dir)
  | .openDevice k opens => (s.sensors k).map (fun x => openDevice sys s k x opens)
  | .closeDevice k => (s.sensors k).map (closeDevice s k)
  | .destroy k => (s.sensors k).map (destroy s k)
  | .outsideOpen =>
    some { s with
      outside := s.outside++[sys.newFd s.fds]
      fds := s.fds++[sys.newFd s.fds] }
  | .outsideClose fd =>
    if fd ∈ s.outside then
      some { s with
        outside := s.outside.filter (fun r => r ∉ [fd])
        fds := close s.fds (some fd) }
    else none

/-! ## What a search leaves open -/

def Dirent.matches (inputName : String) (de : Dirent) : Bool :=
  !de.skipped && de.opens && decide (de.label.getD "" = inputName)

variable {sys} {inputName : String} {fds : List ℕ}

theorem close_last {fd : ℕ} (h : fd ∉ fds) : close (fds++[fd]) (some fd) = fds := by
  rw [close, List.filter_append, List.filter_eq_self.mpr, List.filter_eq_nil_iff.mpr,
    List.append_nil]
  · simp
  · intro r hr
    have hne : r ≠ fd := fun heq => h (heq ▸ hr)
    simpa using hne

theorem close_before {fd : ℕ} {rest : List ℕ} (h : fd ∉ fds) (hrest : fd ∉ rest) :
    close (fds++[fd]++rest) (some fd) = fds++rest := by
  have hkeep : rest.filter (fun r => r ∉ [fd]) = rest := by
    apply List.filter_eq_self.mpr
    intro r hr
    have hne : r ≠ fd := fun heq => hrest (heq ▸ hr)
    simpa using hne
  have hlast := close_last h
  rw [close] at hlast ⊢
  rw [List.filter_append, hlast, hkeep]

theorem search_eq (entries : List Dirent) (fds : List ℕ) :
    search sys inputName entries fds =
      if entries.any (Dirent.matches inputName) then (some (sys.newFd fds), fds++[sys.newFd fds])
      else (none, fds) := by
  induction entries with
  | nil => rfl
  | cons de entries ih =>
    simp only [search, close_last (sys.newFd_fresh fds), ih, List.any_cons, Dirent.matches]
    by_cases hskipped : de.skipped = true
    · simp [hskipped]
    · by_cases hopens : de.opens = true
      · by_cases hlabel : de.label.getD "" = inputName
        · simp [hskipped, hopens, hlabel]
        · simp [hskipped, hopens, hlabel]
      · simp [hskipped, hopens]

variable (sys inputName fds) in
theorem openInput_leaves (dir : Option (List Dirent)) :
    (openInput sys inputName dir fds).2 =
        fds++(openInput sys inputName dir fds).1.toList ∧
      (∀ fd, (openInput sys inputName dir fds).1 = some fd → fd ∉ fds) ∧
      ((openInput sys inputName dir fds).1.isSome ↔
        ∃ entries, dir = some entries ∧ ∃ de ∈ entries, de.matches inputName = true) := by
  cases dir with
  | none => simp [openInput]
  | some entries =>
    have hdir := sys.newFd_fresh fds
    have hnew := sys.newFd_fresh (fds++[sys.newFd fds])
    rw [List.mem_append, not_or] at hnew
    simp only [openInput, search_eq]
    split_ifs with hany
    · have hne : sys.newFd fds ∉ [sys.newFd (fds++[sys.newFd fds])] := by
        simpa [eq_comm] using hnew.2
      refine ⟨close_before hdir hne, fun fd hfd => ?_, ?_⟩
      · rw [← Option.some.inj hfd]
        exact hnew.1
      · simpa using hany
    · refine ⟨by simpa using close_last hdir, by simp, ?_⟩
      simpa using hany

/-! ## Who owns the descriptors -/

inductive Owner (ι : Type) where
  | data (k : ι)
  | dev (k : ι)
  | outside (fd : ℕ)

omit [DecidableEq ι] in
def own (s : Process ι) : Owner ι → Option ℕ
  | .data k => (s.sensors k).bind Sensor.data_fd
  | .dev k => (s.sensors k).bind Sensor.dev_fd
  | .outside fd => if fd ∈ s.outside then some fd else none

section Owners

variable {own own' : Owner ι → Option ℕ} {o : Owner ι} {fd : Option ℕ}

omit [DecidableEq ι] in
theorem exact_take (he : Exact own fds) (hvacant : own o = none) (htaken : own' o = fd)
    (hkeep : ∀ o', o' ≠ o → own' o' = own o') (hfresh : ∀ n, fd = some n → n ∉ fds) :
    Exact own' (fds++fd.toList) := by
  cases fd with
  | none =>
    rw [Option.toList_none, List.append_nil]
    exact he.congr o (htaken.trans hvacant.symm) hkeep
  | some n => exact exact_gain he hvacant htaken hkeep (hfresh n rfl)

omit [DecidableEq ι] in
theorem exact_drop (he : Exact own fds) (howned : own o = fd) (hvacant : own' o = none)
    (hkeep : ∀ o', o' ≠ o → own' o' = own o') : Exact own' (close fds fd) := by
  cases fd with
  | none => exact he.congr o (hvacant.trans howned.symm) hkeep
  | some n => exact exact_lose he howned hvacant hkeep

end Owners

section Steps

variable {s s' : Process ι} {k : ι}

theorem own_put_data (x : Option Sensor) (fds : List ℕ) :
    own (s.put k x fds) (.data k) = x.bind Sensor.data_fd := by
  simp [own, Process.put]

theorem own_put_dev (x : Option Sensor) (fds : List ℕ) :
    own (s.put k x fds) (.dev k) = x.bind Sensor.dev_fd := by
  simp [own, Process.put]

theorem own_put_other (x : Option Sensor) (fds : List ℕ) {o : Owner ι} (hdata : o ≠ .data k)
    (hdev : o ≠ .dev k) : own (s.put k x fds) o = own s o := by
  cases o with
  | data j =>
    have hj : j ≠ k := fun h => hdata (by rw [h])
    simp [own, Process.put, hj]
  | dev j =>
    have hj : j ≠ k := fun h => hdev (by rw [h])
    simp [own, Process.put, hj]
  | outside fd => rfl

theorem put_data_keeps {x y : Option Sensor} (hx : s.sensors k = x)
    (hdev : y.bind Sensor.dev_fd = x.bind Sensor.dev_fd) {o : Owner ι} (ho : o ≠ .data k) :
    own (s.put k y fds) o = own s o := by
  by_cases hd : o = .dev k
  · rw [hd, own_put_dev, hdev, own, hx]
  · exact own_put_other y fds ho hd

theorem put_dev_keeps {x y : Option Sensor} (hx : s.sensors k = x)
    (hdata : y.bind Sensor.data_fd = x.bind Sensor.data_fd) {o : Owner ι} (ho : o ≠ .dev k) :
    own (s.put k y fds) o = own s o := by
  by_cases hd : o = .data k
  · rw [hd, own_put_data, hdata, own, hx]
  · exact own_put_other y fds hd ho

theorem construct_exact (he : Exact (own s) s.fds) (hk : s.sensors k = none) (dev_name : Bool)
    (data_name : String) (dir : Option (List Dirent)) :
    Exact (own (construct sys s k dev_name data_name dir))
      (construct sys s k dev_name data_name dir).fds := by
  have hleaves := openInput_leaves sys data_name s.fds dir
  obtain ⟨hfds, hfresh, -⟩ := hleaves
  show Exact _ (openInput sys data_name dir s.fds).2
  rw [hfds]
  refine exact_take (o := .data k) he (by simp [own, hk]) (own_put_data _ _) ?_ hfresh
  exact fun o ho => put_data_keeps hk (by rfl) ho

theorem openDevice_exact {x : Sensor} (he : Exact (own s) s.fds) (hk : s.sensors k = some x)
    (opens : Bool) : Exact (own (openDevice sys s k x opens)) (openDevice sys s k x opens).fds := by
  simp only [openDevice]
  split_ifs with hguard
  · refine exact_gain (o := .dev k) he ?_ (own_put_dev _ _) ?_ (sys.newFd_fresh s.fds)
    · rw [own, hk]
      exact hguard.1
    · exact fun o ho => put_dev_keeps hk (by rfl) ho
  · exact he
  · exact he

theorem closeDevice_exact {x : Sensor} (he : Exact (own s) s.fds) (hk : s.sensors k = some x) :
    Exact (own (closeDevice s k x)) (closeDevice s k x).fds := by
  refine exact_drop (o := .dev k) he ?_ (own_put_dev _ _) fun o ho => put_dev_keeps hk (by rfl) ho
  rw [own, hk]
  rfl

theorem destroy_exact {x : Sensor} (he : Exact (own s) s.fds) (hk : s.sensors k = some x) :
    Exact (own (destroy s k x)) (destroy s k x).fds := by
  have hfirst : Exact (own (s.put k (some { x with data_fd := none }) (close s.fds x.data_fd)))
      (close s.fds x.data_fd) := by
    refine exact_drop (o := .data k) he ?_ (own_put_data _ _) fun o ho =>
      put_data_keeps hk (by rfl) ho
    rw [own, hk]
    rfl
  refine exact_drop (o := .dev k) hfirst (own_put_dev _ _) (own_put_dev _ _) fun o ho => ?_
  by_cases hd : o = .data k
  · rw [hd, own_put_data, destroy, own_put_data]
    rfl
  · rw [destroy, own_put_other _ _ hd ho, own_put_other _ _ hd ho]

omit [DecidableEq ι] in
theorem outside_own {n fd : ℕ} (h : own s (.outside n) = some fd) : n = fd ∧ fd ∈ s.outside := by
  simp only [own] at h
  split_ifs at h with hmem
  obtain rfl := Option.some.inj h
  exact ⟨rfl, hmem⟩

omit [DecidableEq ι] in
theorem outside_open (he : Exact (own s) s.fds) {fd : ℕ} (h : fd ∈ s.outside) : fd ∈ s.fds :=
  (he.owned fd).mpr ⟨.outside fd, by simp [own, h]⟩

theorem step_exact {c : Call ι} (he : Exact (own s) s.fds) (hs : step sys s c = some s') :
    Exact (own s') s'.fds := by
  cases c with
  | construct k dev_name data_name dir =>
    rw [step] at hs
    split_ifs at hs with hk
    obtain rfl := Option.some.inj hs
    exact construct_exact he (Option.not_isSome_iff_eq_none.mp hk) dev_name data_name dir
  | openDevice k opens =>
    obtain ⟨x, hk, rfl⟩ := Option.map_eq_some_iff.mp hs
    exact openDevice_exact he hk opens
  | closeDevice k =>
    obtain ⟨x, hk, rfl⟩ := Option.map_eq_some_iff.mp hs
    exact closeDevice_exact he hk
  | destroy k =>
    obtain ⟨x, hk, rfl⟩ := Option.map_eq_some_iff.mp hs
    exact destroy_exact he hk
  | outsideOpen =>
    obtain rfl := Option.some.inj hs
    have hnew := sys.newFd_fresh s.fds
    have hvacant : sys.newFd s.fds ∉ s.outside := fun h => hnew (outside_open he h)
    refine exact_gain (o := .outside (sys.newFd s.fds)) he (by simp [own, hvacant]) (by simp [own])
      (fun o ho => ?_) hnew
    cases o with
    | data j => rfl
    | dev j => rfl
    | outside fd =>
      have hne : fd ≠ sys.newFd s.fds := fun h => ho (by rw [h])
      simp [own, hne]
  | outsideClose fd =>
    rw [step] at hs
    split_ifs at hs with hmem
    obtain rfl := Option.some.inj hs
    refine exact_lose (o := .outside fd) he (by simp [own, hmem]) (by simp [own]) (fun o ho => ?_)
    cases o with
    | data j => rfl
    | dev j => rfl
    | outside fd' =>
      have hne : fd' ≠ fd := fun h => ho (by rw [h])
      simp [own, hne]

def started (held : List ℕ) : Process ι := ⟨fun _ => none, held, held⟩

omit [DecidableEq ι] in
theorem started_exact {held : List ℕ} (h : held.Nodup) :
    Exact (own (started held : Process ι)) (started held : Process ι).fds where
  nodup := h
  owned fd := by
    constructor
    · intro hfd
      exact ⟨.outside fd, if_pos hfd⟩
    · rintro ⟨o, ho⟩
      cases o with
      | data k => cases ho
      | dev k => cases ho
      | outside fd' =>
        exact (outside_own ho).2
  unique o o' fd ho ho' := by
    cases o with
    | data k => cases ho
    | dev k => cases ho
    | outside n =>
      cases o' with
      | data k => cases ho'
      | dev k => cases ho'
      | outside n' => rw [(outside_own ho).1, (outside_own ho').1]

/-- Whatever sensors come and go and whatever else is opened, every open descriptor is
that of one live sensor or of the rest of the process; once the sensors are gone, only
the latter are left. -/
theorem descriptors_exact {held : List ℕ} {calls : List (Call ι)} (h : held.Nodup)
    (hr : Run (step sys) (fun _ _ => True) (started held) calls s) :
    Exact (own s) s.fds ∧
      ((∀ k, s.sensors k = none) → ∀ fd, fd ∈ s.fds ↔ fd ∈ s.outside) := by
  have he : Exact (own s) s.fds :=
    hr.invariant (fun s => Exact (own s) s.fds) (fun _ _ _ he _ hs => step_exact he hs)
      (started_exact h)
  refine ⟨he, fun hgone fd => ⟨fun hfd => ?_, outside_open he⟩⟩
  obtain ⟨o, ho⟩ := (he.owned fd).mp hfd
  cases o with
  | data k => simp [own, hgone k] at ho
  | dev k => simp [own, hgone k] at ho
  | outside n => exact (outside_own ho).2

end Steps

def counting : System where
  newFd fds := fds.foldr max 0+1
  newFd_fresh fds hmem := by
    have hbound := List.le_max_of_le' 0 hmem le_rfl
    omega

def visit : List (Call Unit) :=
  [.construct () true "compass" (some [⟨".", true, none⟩, ⟨"event0", true, none⟩,
    ⟨"event1", true, some "compass"⟩]), .openDevice () true, .outsideOpen, .destroy ()]

theorem descriptors_exact_visit : ∃ s : Process Unit, s.sensors () = none ∧
    (4 ∈ s.fds ↔ 4 ∈ s.outside) := by
  have hend : (final (step counting) (fun _ _ => True) (started [1]) visit).any (fun s =>
      (s.sensors ()).isNone) = true := by decide +kernel
  obtain ⟨s, hs, hgone⟩ := (Option.any_eq_true _ _).mp hend
  have hnone : s.sensors () = none := Option.isNone_iff_eq_none.mp hgone
  exact ⟨s, hnone, (descriptors_exact (by decide) (final_run hs)).2 (fun _ => hnone) 4⟩

end Wingray.SensorNodes
