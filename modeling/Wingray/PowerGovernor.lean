import Wingray.SavedLimit

/-!
# The power HAL and the CPU frequency limit

`power_set_interactive` lowers `scaling_max_freq` when the screen goes off and
writes the saved limit back when it comes on. Buffers are the ten-byte arrays
of the source; the node holds the bytes last written to it.
-/

set_option autoImplicit false

namespace Wingray.PowerGovernor
open Wingray.SavedLimit

abbrev Byte := BitVec 8

def MAX_BUF_SZ : ℕ := 10

abbrev Buffer := Fin MAX_BUF_SZ → Byte

def ascii (s : String) : List Byte := s.toList.map (fun c => BitVec.ofNat 8 c.toNat)

def buffer (s : String) : Buffer := fun i => (ascii s).getD i 0

def cstring (b : Buffer) : List Byte := (List.ofFn b).takeWhile (fun x => x ≠ 0)

def screenOffMaxFreq : Buffer := buffer "456000"

structure Files where
  read : Bool
  write : Bool
  rewrite : Bool
  writeBoost : Bool
  deriving DecidableEq

def Files.succeed : Files := ⟨true, true, true, true⟩

structure PowerState where
  node : List Byte
  boost : List Byte
  scalingMaxFreq : Buffer

def PowerState.start (limit boost : List Byte) : PowerState := ⟨limit, boost, buffer "1000000"⟩

/-- One call with the bytes its uninitialised stack buffer happens to hold. -/
structure Call where
  on : ℤ
  stack : Buffer
  files : Files

def isOn (c : Call) : Bool := c.on ≠ 0

def sysfsRead (ok : Bool) (node : List Byte) (buf : Buffer) : ℤ × Buffer :=
  if ok then (min node.length MAX_BUF_SZ, fun i => node.getD i (buf i)) else (-1, buf)

def sysfsWrite (ok : Bool) (node s : List Byte) : List Byte := if ok then s else node

def powerSetInteractive (s : PowerState) (c : Call) : PowerState :=
  let r := sysfsRead c.files.read s.node c.stack
  let scalingMaxFreq := if c.on = 0 ∧ r.1 ≠ -1 then r.2 else s.scalingMaxFreq
  let node := sysfsWrite c.files.write s.node
    (cstring (if c.on ≠ 0 then scalingMaxFreq else screenOffMaxFreq))
  let node := if c.on ≠ 0 then sysfsWrite c.files.rewrite node (cstring scalingMaxFreq) else node
  { node := node
    boost := sysfsWrite c.files.writeBoost s.boost (ascii (if c.on ≠ 0 then "1" else "0"))
    scalingMaxFreq := scalingMaxFreq }

def run (s : PowerState) (cs : List Call) : PowerState := cs.foldl powerSetInteractive s

/-- Every file operation succeeds and the read leaves the node's value as a
terminated string in the buffer. -/
def Served (s : PowerState) (c : Call) : Prop :=
  c.files = Files.succeed ∧ s.node.length < MAX_BUF_SZ ∧
    cstring (sysfsRead true s.node c.stack).2 = s.node

def AllServed : PowerState → List Call → Prop
  | _, [] => True
  | s, c::cs => Served s c ∧ AllServed (powerSetInteractive s c) cs

/-! ## The HAL is a throttle -/

def lowered : List Byte := cstring screenOffMaxFreq

def Represents (s : PowerState) (g : Throttle (List Byte)) : Prop :=
  s.node = g.limit ∧ cstring s.scalingMaxFreq = g.saved

theorem powerSetInteractive_represents {s : PowerState} {g : Throttle (List Byte)} (c : Call)
    (h : Represents s g) (hs : Served s c) :
    Represents (powerSetInteractive s c) (call lowered isOn g c) := by
  obtain ⟨hnode, hsaved⟩ := h
  obtain ⟨hfiles, hlen, hread⟩ := hs
  have hlen' : (min s.node.length MAX_BUF_SZ : ℤ) ≠ -1 := by omega
  by_cases hon : c.on = 0
  · have hcall : call lowered isOn g c = ⟨lowered, g.limit⟩ := by simp [call, isOn, hon]
    rw [hcall]
    constructor
    · simp only [powerSetInteractive, hfiles, hon, Files.succeed, sysfsWrite, if_true, ne_eq,
        not_true_eq_false, if_false]
      rfl
    · rw [← hnode, ← hread]
      simp only [powerSetInteractive, hfiles, hon, Files.succeed, sysfsRead, if_true]
      rw [if_pos ⟨trivial, hlen'⟩]
  · have hcall : call lowered isOn g c = { g with limit := g.saved } := by simp [call, isOn, hon]
    rw [hcall]
    constructor
    · rw [← hsaved]
      simp only [powerSetInteractive, hfiles, hon, Files.succeed, sysfsWrite, if_true, ne_eq,
        not_false_eq_true, false_and, if_false]
    · rw [← hsaved]
      simp only [powerSetInteractive, hon, false_and, if_false]

theorem run_represents {s : PowerState} {g : Throttle (List Byte)} (cs ds : List Call)
    (h : Represents s g) (hs : AllServed s (cs++ds)) :
    Represents (run s cs) (calls lowered isOn g cs) := by
  induction cs generalizing s g with
  | nil => exact h
  | cons c cs ih => exact ih (powerSetInteractive_represents c h hs.1) hs.2

theorem start_represents (limit boost : List Byte) :
    Represents (.start limit boost) ⟨limit, cstring (buffer "1000000")⟩ := ⟨rfl, rfl⟩

/-- After every on call that follows an off call the node holds the limit from
before the latest block of off calls, exactly when no repeated off call is
later followed by an on call, or the first call is an off call and the limit
was the lowered one from the start. -/
theorem limit_restored_iff (limit boost : List Byte) (cs : List Call)
    (hs : AllServed (.start limit boost) cs) :
    Undone isOn (fun ds => (run (.start limit boost) ds).node) cs ↔
      NeverRepeated isOn cs ∨
      (limit = lowered ∧ ∃ c ds, cs = c::ds ∧ isOn c = false) := by
  have hprefix : ∀ ds es, cs = ds++es → (run (.start limit boost) ds).node =
      (calls lowered isOn ⟨limit, cstring (buffer "1000000")⟩ ds).limit := by
    intro ds es he
    exact (run_represents ds es (start_represents limit boost) (he ▸ hs)).1
  rw [undone_congr hprefix]
  exact undone_iff limit _ (by decide +kernel) cs

def screenOff : Call := ⟨0, fun _ => 0, Files.succeed⟩

def screenOn : Call := ⟨1, fun _ => 0, Files.succeed⟩

theorem limit_restored_once : Undone isOn
    (fun ds => (run (.start (ascii "1000000") (ascii "0")) ds).node)
    [screenOff, screenOn, screenOff, screenOn] ↔
      NeverRepeated isOn [screenOff, screenOn, screenOff, screenOn] ∨
      (ascii "1000000" = lowered ∧
        ∃ c ds, [screenOff, screenOn, screenOff, screenOn] = c::ds ∧ isOn c = false) :=
  limit_restored_iff _ _ _ ⟨⟨rfl, by decide +kernel, by decide +kernel⟩,
    ⟨rfl, by decide +kernel, by decide +kernel⟩, ⟨rfl, by decide +kernel, by decide +kernel⟩,
    ⟨rfl, by decide +kernel, by decide +kernel⟩, trivial⟩

/-- Two off calls in a row save the lowered limit and the on call keeps it. -/
theorem repeated_off_keeps_lowered :
    AllServed (.start (ascii "1000000") (ascii "0")) [screenOff, screenOff, screenOn] ∧
    ¬ Undone isOn (fun ds => (run (.start (ascii "1000000") (ascii "0")) ds).node)
      [screenOff, screenOff, screenOn] := by
  constructor
  · exact ⟨⟨rfl, by decide +kernel, by decide +kernel⟩, ⟨rfl, by decide +kernel, by decide +kernel⟩,
      ⟨rfl, by decide +kernel, by decide +kernel⟩, trivial⟩
  · intro h
    have hb : Block isOn [] [screenOff, screenOff] [screenOn] :=
      ⟨by simp, by simp, by decide +kernel, by simp, by decide +kernel⟩
    exact absurd (h [] [screenOff, screenOff] [screenOn] [] rfl hb) (by decide +kernel)

/-! ## What the buffer held before

The read fills the first bytes of the buffer and terminates nothing; the whole
buffer is saved. -/

section Stale

variable (s : PowerState) (stack : Buffer)

theorem read_bytes (h : s.node.length < MAX_BUF_SZ) :
    List.ofFn (sysfsRead true s.node stack).2 = s.node ++ (List.ofFn stack).drop s.node.length := by
  apply List.ext_getElem
  · rw [List.length_append, List.length_drop, List.length_ofFn, List.length_ofFn]
    omega
  · intro i _ _
    rw [List.getElem_ofFn, List.getElem_append]
    simp only [sysfsRead, if_true, List.getD_eq_getElem?_getD]
    split_ifs with hi
    · rw [List.getElem?_eq_getElem hi, Option.getD_some]
    · rw [List.getElem?_eq_none (not_lt.mp hi), Option.getD_none, List.getElem_drop,
        List.getElem_ofFn]
      congr 2
      omega

/-- The saved string is what was read, followed by the old bytes up to a NUL. -/
theorem read_string (h : s.node.length < MAX_BUF_SZ) (hz : ∀ x ∈ s.node, x ≠ 0) :
    cstring (sysfsRead true s.node stack).2 =
      s.node ++ ((List.ofFn stack).drop s.node.length).takeWhile (fun x => x ≠ 0) := by
  rw [cstring, read_bytes s stack h]
  exact List.takeWhile_append_of_pos (fun x hx => decide_eq_true (hz x hx))

theorem read_string_exact (h : s.node.length < MAX_BUF_SZ) (hz : ∀ x ∈ s.node, x ≠ 0) :
    cstring (sysfsRead true s.node stack).2 = s.node ↔ stack ⟨s.node.length, h⟩ = 0 := by
  have hlength : s.node.length < (List.ofFn stack).length := by rwa [List.length_ofFn]
  rw [read_string s stack h hz, List.append_right_eq_self, List.drop_eq_getElem_cons hlength,
    List.getElem_ofFn, List.takeWhile_cons]
  simp

end Stale

/-- The buffer before each of the two calls. -/
structure Stacks where
  off : Buffer
  on : Buffer

def offOn (s : PowerState) (u : Stacks) : PowerState :=
  run s [⟨0, u.off, Files.succeed⟩, ⟨1, u.on, Files.succeed⟩]

theorem off_saves (s : PowerState) (stack : Buffer) :
    (powerSetInteractive s ⟨0, stack, Files.succeed⟩).scalingMaxFreq =
      (sysfsRead true s.node stack).2 := by
  have hread : (min s.node.length MAX_BUF_SZ : ℤ) ≠ -1 := by omega
  simp only [powerSetInteractive, Files.succeed, sysfsRead, if_true]
  rw [if_pos ⟨trivial, hread⟩]

theorem on_writes (s : PowerState) (stack : Buffer) :
    (powerSetInteractive s ⟨1, stack, Files.succeed⟩).node = cstring s.scalingMaxFreq := by
  simp [powerSetInteractive, Files.succeed, sysfsWrite]

theorem offOn_node (s : PowerState) (u : Stacks) :
    (offOn s u).node = cstring (sysfsRead true s.node u.off).2 := by
  rw [offOn, run, List.foldl_cons, List.foldl_cons, List.foldl_nil, on_writes, off_saves]

def Restores (s : PowerState) (u v : Stacks) : Prop :=
  (offOn s u).node = (offOn s v).node ∧ (offOn s u).node = s.node

theorem restores_iff (s : PowerState) (h : s.node.length < MAX_BUF_SZ) (hz : ∀ x ∈ s.node, x ≠ 0)
    (u v : Stacks) : Restores s u v ↔
      u.off ⟨s.node.length, h⟩ = 0 ∧ v.off ⟨s.node.length, h⟩ = 0 := by
  rw [Restores, offOn_node, offOn_node, ← read_string_exact s u.off h hz,
    ← read_string_exact s v.off h hz]
  constructor
  · rintro ⟨hsame, hexact⟩
    exact ⟨hexact, hsame ▸ hexact⟩
  · rintro ⟨hu, hv⟩
    exact ⟨hu.trans hv.symm, hu⟩

def cleared : Stacks := ⟨fun _ => 0, fun _ => 0⟩
def stale : Stacks := ⟨buffer "       9", fun _ => 0⟩

theorem restores_cleared : Restores (.start (ascii "1000000") (ascii "0")) cleared cleared :=
  (restores_iff (.start (ascii "1000000") (ascii "0")) (by decide +kernel) (by decide +kernel)
    cleared cleared).mpr ⟨by decide +kernel, by decide +kernel⟩

/-- The limit comes back ten times as large. -/
theorem restores_not_stale : ¬ ∀ (s : PowerState) (u v : Stacks), 1 ≤ s.node.length →
    s.node.length < MAX_BUF_SZ → (∀ x ∈ s.node, x ≠ 0) → Restores s u v := by
  intro h
  have hboth := h (.start (ascii "1000000") (ascii "0")) cleared stale (by decide +kernel)
    (by decide +kernel) (by decide +kernel)
  exact absurd hboth.1 (by decide +kernel)

end Wingray.PowerGovernor
