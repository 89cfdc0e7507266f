import Wingray.HwcTranslation

/-!
# The hardware composer wrapper: frames

Of each frame only the first display is looked at. `tegra2_prepare` and
`tegra2_set` each have conditions of their own for leaving early.
-/

set_option autoImplicit false

namespace Wingray.HwcFrames
open Wingray.CellMemory Wingray.HwcTranslation

structure Tegra2HwcComposerDevice1 where
  prepareXlatebuf : Xlatebuf
  setXlatebuf : Xlatebuf
  yres : ℤ
  fbblanked : Bool

/-- `displays`, which may be null as its first element may. -/
abbrev Displays (E : Type) := Option (Option (HwcDisplayContents1 E))

abbrev OrgPrepare := HwcLayerList → HwcLayerList × ℤ
abbrev OrgSet := BitVec 32 → BitVec 32 → HwcLayerList → HwcLayerList × ℤ

variable {E : Type}

/-! ## Prepare -/

def bottomPad : BitVec 32 := 1

def fullHeight (yres : ℤ) (layer statusBar : HwcLayer) : Prop :=
  layer.transform = 0 ∧ layer.displayFrame.top = 0 ∧ layer.displayFrame.bottom.toInt = yres ∧
  statusBar.sourceCrop.top = 0 ∧ statusBar.sourceCrop.bottom.toInt = yres ∧
  statusBar.displayFrame.top = 0 ∧ statusBar.displayFrame.bottom.toInt = yres

instance (yres : ℤ) (layer statusBar : HwcLayer) : Decidable (fullHeight yres layer statusBar) :=
  inferInstanceAs (Decidable (_ ∧ _))

def padLayer (layer : HwcLayer1 E) : HwcLayer1 E := { layer with
  displayFrame := { layer.displayFrame with bottom := layer.displayFrame.bottom-bottomPad }
  sourceCrop := { layer.sourceCrop with bottom := layer.sourceCrop.bottom-bottomPad } }

/-- The workaround for the composer of one vendor, on exactly three layers. -/
def padLayers (yres : ℤ) : List (HwcLayer1 E) → List (HwcLayer1 E)
  | [x, y, z] => if fullHeight yres x.toHwcLayer y.toHwcLayer then [padLayer x, y, z] else [x, y, z]
  | xs => xs

theorem padLayers_rest (yres : ℤ) (xs : List (HwcLayer1 E)) :
    (padLayers yres xs).map HwcLayer1.rest = xs.map HwcLayer1.rest := by
  fun_cases padLayers yres xs <;> rfl

theorem padLayers_length (yres : ℤ) (xs : List (HwcLayer1 E)) :
    (padLayers yres xs).length = xs.length := by
  fun_cases padLayers yres xs <;> rfl

/-- `SAMSUNG_T20_HWCOMPOSER` is a setting of the build. -/
def workaround (samsung : Bool) (yres : ℤ) (contents : HwcDisplayContents1 E) :
    HwcDisplayContents1 E :=
  if samsung then
    { contents with
      hwLayers := padLayers yres contents.hwLayers
      addressable := by
        rw [padLayers_length]
        exact contents.addressable }
  else contents

/-- `left` is what the composer makes of the list it is given, if it is called. -/
structure Prepared (E : Type) where
  device : Tegra2HwcComposerDevice1
  displays : Displays E
  left : Option HwcLayerList
  ret : ℤ

def tegra2Prepare (org : OrgPrepare) (samsung : Bool) (pdev : Tegra2HwcComposerDevice1)
    (numDisplays : ℕ) (displays : Displays E) (alloc : Option HwcLayerList) :
    Option (Prepared E) :=
  if numDisplays = 0 then some ⟨pdev, displays, none, 0⟩
  else match displays with
  | none => some ⟨pdev, displays, none, 0⟩
  | some none => some ⟨pdev, displays, none, 0⟩
  | some (some contents) =>
    if contents.hwLayers.length = 0 then some ⟨pdev, displays, none, 0⟩
    else if pdev.fbblanked then some ⟨pdev, displays, none, -ENODEV⟩
    else
      let padded := workaround samsung pdev.yres contents
      (translate pdev.prepareXlatebuf alloc padded).map (fun x =>
        let answer := org x.2
        { device := { pdev with prepareXlatebuf := x.1.write answer.1 }
          displays := some (some (copyLayerListToDisplayContents1 padded answer.1))
          left := some answer.1
          ret := answer.2 })

/-! ## Set -/

def closeFences : List (HwcLayer1 E) → List (HwcLayer1 E) × List ℤ
  | [] => ([], [])
  | x::xs =>
    ({ x with acquireFenceFd := -1, releaseFenceFd := -1 }::(closeFences xs).1,
      if 0 ≤ x.acquireFenceFd then x.acquireFenceFd::(closeFences xs).2 else (closeFences xs).2)

theorem closeFences_length (xs : List (HwcLayer1 E)) : (closeFences xs).1.length = xs.length := by
  induction xs with
  | nil => rfl
  | cons x xs ih => rw [closeFences, List.length_cons, List.length_cons, ih]

/-- `handed` is the list that the composer is given, if it is called, and
`closed` the descriptors in the order in which they are closed. -/
structure Shown (E : Type) where
  device : Tegra2HwcComposerDevice1
  displays : Displays E
  handed : Option HwcLayerList
  closed : List ℤ
  ret : ℤ

def releaseFences (contents : HwcDisplayContents1 E) : HwcDisplayContents1 E := { contents with
  hwLayers := (closeFences contents.hwLayers).1
  addressable := by
    rw [closeFences_length]
    exact contents.addressable }

def tegra2Set (org : OrgSet) (pdev : Tegra2HwcComposerDevice1) (numDisplays : ℕ)
    (displays : Displays E) (alloc : Option HwcLayerList) : Option (Shown E) :=
  if numDisplays = 0 then some ⟨pdev, displays, none, [], 0⟩
  else match displays with
  | none => some ⟨pdev, displays, none, [], 0⟩
  | some none => some ⟨pdev, displays, none, [], 0⟩
  | some (some contents) =>
    if contents.hwLayers.length = 0 then some ⟨pdev, displays, none, [], 0⟩
    else if contents.dpy = 0 ∨ contents.sur = 0 then some ⟨pdev, displays, none, [], 0⟩
    else if pdev.fbblanked then some ⟨pdev, displays, none, [], -ENODEV⟩
    else
      (translate pdev.setXlatebuf alloc contents).map (fun x =>
        let answer := org contents.dpy contents.sur x.2
        let copied := copyLayerListToDisplayContents1 contents answer.1
        { device := { pdev with setXlatebuf := x.1.write answer.1 }
          displays := some (some (releaseFences copied))
          handed := some x.2
          closed := (closeFences copied.hwLayers).2
          ret := answer.2 })

/-! ## When the composer is called -/

def PrepareForwards (pdev : Tegra2HwcComposerDevice1) (numDisplays : ℕ)
    (contents : HwcDisplayContents1 E) : Prop :=
  numDisplays ≠ 0 ∧ contents.hwLayers ≠ [] ∧ pdev.fbblanked = false

def SetForwards (pdev : Tegra2HwcComposerDevice1) (numDisplays : ℕ)
    (contents : HwcDisplayContents1 E) : Prop :=
  PrepareForwards pdev numDisplays contents ∧ contents.dpy ≠ 0 ∧ contents.sur ≠ 0

section Calls

variable {pdev : Tegra2HwcComposerDevice1} {numDisplays : ℕ} {displays : Displays E}
  {contents : HwcDisplayContents1 E}

theorem prepare_forwarded (org : OrgPrepare) (samsung : Bool) (alloc : Option HwcLayerList)
    (h : PrepareForwards pdev numDisplays contents) :
    tegra2Prepare org samsung pdev numDisplays (some (some contents)) alloc =
      (translate pdev.prepareXlatebuf alloc (workaround samsung pdev.yres contents)).map (fun x =>
        { device := { pdev with prepareXlatebuf := x.1.write (org x.2).1 }
          displays := some (some (copyLayerListToDisplayContents1
            (workaround samsung pdev.yres contents) (org x.2).1))
          left := some (org x.2).1
          ret := (org x.2).2 }) := by
  obtain ⟨hnum, hlayers, hblank⟩ := h
  have hlength : contents.hwLayers.length ≠ 0 := fun h => hlayers (List.length_eq_zero_iff.mp h)
  rw [tegra2Prepare, if_neg hnum]
  simp only [if_neg hlength, hblank, Bool.false_eq_true, if_false]

theorem prepare_early (org : OrgPrepare) (samsung : Bool) (alloc : Option HwcLayerList)
    (h : ∀ contents, displays = some (some contents) →
      ¬ PrepareForwards pdev numDisplays contents) :
    ∃ ret, tegra2Prepare org samsung pdev numDisplays displays alloc =
      some ⟨pdev, displays, none, ret⟩ := by
  by_cases hnum : numDisplays = 0
  · exact ⟨_, if_pos hnum⟩
  match displays, h with
  | none, _ => exact ⟨_, by rw [tegra2Prepare, if_neg hnum]⟩
  | some none, _ => exact ⟨_, by rw [tegra2Prepare, if_neg hnum]⟩
  | some (some contents), h =>
    simp only [tegra2Prepare, if_neg hnum]
    split_ifs with hlayers hblank
    · exact ⟨_, rfl⟩
    · exact ⟨_, rfl⟩
    · exact absurd ⟨hnum, fun he => hlayers (List.length_eq_zero_iff.mpr he),
        Bool.eq_false_iff.mpr hblank⟩ (h contents rfl)

theorem set_forwarded (org : OrgSet) (alloc : Option HwcLayerList)
    (h : SetForwards pdev numDisplays contents) :
    tegra2Set org pdev numDisplays (some (some contents)) alloc =
      (translate pdev.setXlatebuf alloc contents).map (fun x =>
        let answer := org contents.dpy contents.sur x.2
        let copied := copyLayerListToDisplayContents1 contents answer.1
        { device := { pdev with setXlatebuf := x.1.write answer.1 }
          displays := some (some (releaseFences copied))
          handed := some x.2
          closed := (closeFences copied.hwLayers).2
          ret := answer.2 }) := by
  obtain ⟨⟨hnum, hlayers, hblank⟩, hdpy, hsur⟩ := h
  have hlength : contents.hwLayers.length ≠ 0 := fun h => hlayers (List.length_eq_zero_iff.mp h)
  rw [tegra2Set, if_neg hnum]
  simp only [if_neg hlength, hdpy, hsur, or_self, hblank, Bool.false_eq_true, if_false]

theorem set_early (org : OrgSet) (alloc : Option HwcLayerList)
    (h : ∀ contents, displays = some (some contents) → ¬ SetForwards pdev numDisplays contents) :
    ∃ ret, tegra2Set org pdev numDisplays displays alloc =
      some ⟨pdev, displays, none, [], ret⟩ := by
  by_cases hnum : numDisplays = 0
  · exact ⟨_, if_pos hnum⟩
  match displays, h with
  | none, _ => exact ⟨_, by rw [tegra2Set, if_neg hnum]⟩
  | some none, _ => exact ⟨_, by rw [tegra2Set, if_neg hnum]⟩
  | some (some contents), h =>
    simp only [tegra2Set, if_neg hnum]
    split_ifs with hlayers hsurface hblank
    · exact ⟨_, rfl⟩
    · exact ⟨_, rfl⟩
    · exact ⟨_, rfl⟩
    · obtain ⟨hdpy, hsur⟩ := not_or.mp hsurface
      exact absurd ⟨⟨hnum, fun he => hlayers (List.length_eq_zero_iff.mpr he),
        Bool.eq_false_iff.mpr hblank⟩, hdpy, hsur⟩ (h contents rfl)

end Calls

/-! ## Fences -/

def fences (contents : HwcDisplayContents1 E) : List ℤ :=
  (contents.hwLayers.map HwcLayer1.acquireFenceFd).filter (fun fd => 0 ≤ fd)

def Unfenced (contents : HwcDisplayContents1 E) : Prop :=
  ∀ layer ∈ contents.hwLayers, layer.acquireFenceFd = -1 ∧ layer.releaseFenceFd = -1

theorem closeFences_unfenced (xs : List (HwcLayer1 E)) :
    ∀ layer ∈ (closeFences xs).1, layer.acquireFenceFd = -1 ∧ layer.releaseFenceFd = -1 := by
  induction xs with
  | nil => simp [closeFences]
  | cons x xs ih =>
    intro layer hlayer
    rcases List.mem_cons.mp hlayer with rfl | hlayer
    · exact ⟨rfl, rfl⟩
    · exact ih layer hlayer

theorem closeFences_closed (xs : List (HwcLayer1 E)) :
    (closeFences xs).2 = (xs.map HwcLayer1.acquireFenceFd).filter (fun fd => 0 ≤ fd) := by
  induction xs with
  | nil => rfl
  | cons x xs ih =>
    simp only [closeFences, List.map_cons, List.filter_cons, decide_eq_true_eq]
    rw [ih]

theorem copied_closed (contents : HwcDisplayContents1 E) (lst : HwcLayerList) :
    (closeFences (copyLayerListToDisplayContents1 contents lst).hwLayers).2 = fences contents := by
  have hrest := congrArg (List.map Prod.fst) (copyBack_map_rest lst.hwLayers 0 contents.hwLayers)
  rw [List.map_map, List.map_map] at hrest
  rw [closeFences_closed]
  exact congrArg (List.filter (fun fd => 0 ≤ fd)) hrest

/-- Every fence that came with the frame has been closed exactly once, and no
layer has a fence any more. -/
def Released (contents : HwcDisplayContents1 E) (r : Shown E) : Prop :=
  (∃ after, r.displays = some (some after) ∧
    after.hwLayers.length = contents.hwLayers.length ∧ Unfenced after) ∧
  ∀ layer ∈ contents.hwLayers, 0 ≤ layer.acquireFenceFd →
    r.closed.count layer.acquireFenceFd = 1

theorem exactly_once_iff (contents : HwcDisplayContents1 E) :
    (∀ layer ∈ contents.hwLayers, 0 ≤ layer.acquireFenceFd →
      (fences contents).count layer.acquireFenceFd = 1) ↔ (fences contents).Nodup := by
  rw [List.nodup_iff_count_eq_one]
  constructor
  · intro h fd hfd
    obtain ⟨hmem, hnonneg⟩ := List.mem_filter.mp hfd
    obtain ⟨layer, hlayer, rfl⟩ := List.mem_map.mp hmem
    exact h layer hlayer (of_decide_eq_true hnonneg)
  · intro h layer hlayer hnonneg
    exact h _ (List.mem_filter.mpr ⟨List.mem_map_of_mem hlayer, decide_eq_true hnonneg⟩)

theorem unfenced_once {contents : HwcDisplayContents1 E} (h : Unfenced contents)
    (closed : List ℤ) : ∀ layer ∈ contents.hwLayers, 0 ≤ layer.acquireFenceFd →
      closed.count layer.acquireFenceFd = 1 := by
  intro layer hlayer hnonneg
  rw [(h layer hlayer).1] at hnonneg
  exact absurd hnonneg (by decide)

theorem early_released_iff (pdev : Tegra2HwcComposerDevice1) (contents : HwcDisplayContents1 E)
    (ret : ℤ) : Released contents ⟨pdev, some (some contents), none, [], ret⟩ ↔
      Unfenced contents := by
  constructor
  · rintro ⟨⟨after, hafter, _, hunfenced⟩, _⟩
    obtain rfl := Option.some.inj (Option.some.inj hafter)
    exact hunfenced
  · intro h
    exact ⟨⟨contents, rfl, rfl, h⟩, unfenced_once h _⟩

theorem set_released_iff {E : Type} (org : OrgSet) (pdev : Tegra2HwcComposerDevice1)
    (numDisplays : ℕ) (contents : HwcDisplayContents1 E) (alloc : Option HwcLayerList)
    (r : Shown E) (h : tegra2Set org pdev numDisplays (some (some contents)) alloc = some r) :
    Released contents r ↔
      (SetForwards pdev numDisplays contents ∧ (fences contents).Nodup) ∨ Unfenced contents := by
  by_cases hf : SetForwards pdev numDisplays contents
  · rw [set_forwarded org alloc hf] at h
    obtain ⟨x, _, rfl⟩ := Option.map_eq_some_iff.mp h
    simp only [Released, copied_closed, exactly_once_iff]
    constructor
    · rintro ⟨_, hnodup⟩
      exact .inl ⟨hf, hnodup⟩
    · intro hcase
      constructor
      · exact ⟨_, rfl, (closeFences_length _).trans (copyBack_length _ _ _),
          closeFences_unfenced _⟩
      · rcases hcase with ⟨_, hnodup⟩ | hunfenced
        · exact hnodup
        · exact (exactly_once_iff contents).mp (unfenced_once hunfenced _)
  · obtain ⟨ret, hret⟩ := set_early org alloc (fun c hc => by
      rw [← Option.some.inj (Option.some.inj hc)]
      exact hf)
    rw [hret] at h
    obtain rfl := Option.some.inj h
    rw [early_released_iff]
    constructor
    · exact .inr
    · rintro (⟨hf', _⟩ | hunfenced)
      · exact absurd hf' hf
      · exact hunfenced

def noRect : HwcRect := ⟨0, 0, 0, 0⟩

def fencedLayer (fd : ℤ) : HwcLayer1 Unit where
  compositionType := 0
  hints := 0
  flags := 0
  handle := 0
  transform := 0
  blending := 0
  sourceCrop := noRect
  displayFrame := noRect
  visibleRegionScreen := ⟨0, 0⟩
  acquireFenceFd := fd
  releaseFenceFd := -1
  other := ()

def fencedContents : HwcDisplayContents1 Unit where
  dpy := 1
  sur := 2
  flags := 0
  hwLayers := [fencedLayer 5, fencedLayer (-1)]
  addressable := by decide

def freshList : HwcLayerList where
  flags := 0
  numHwLayers := 0
  hwLayers := fun _ => (fencedLayer (-1)).toHwcLayer

def openedDevice (fbblanked : Bool) : Tegra2HwcComposerDevice1 where
  prepareXlatebuf := .null
  setXlatebuf := .null
  yres := 800
  fbblanked := fbblanked

theorem set_released_fenced : ∃ r, tegra2Set (fun _ _ lst => (lst, 0)) (openedDevice false) 1
    (some (some fencedContents)) (some freshList) = some r ∧ Released fencedContents r := by
  have hf : SetForwards (openedDevice false) 1 fencedContents :=
    ⟨⟨by decide, by simp [fencedContents], rfl⟩, by decide, by decide⟩
  obtain ⟨b, lst, hlst⟩ := translate_succeeds .null freshList fencedContents
  have hset := set_forwarded (fun _ _ lst => (lst, 0)) (some freshList) hf
  rw [show (openedDevice false).setXlatebuf = .null from rfl, hlst] at hset
  exact ⟨_, hset, (set_released_iff _ _ _ _ _ _ hset).mpr (.inl ⟨hf, by decide⟩)⟩

theorem blanked_set_keeps_fence : ∃ r, tegra2Set (fun _ _ lst => (lst, 0)) (openedDevice true) 1
    (some (some fencedContents)) (some freshList) = some r ∧ r.closed = [] ∧
    ¬ Released fencedContents r := by
  have hset : tegra2Set (fun _ _ lst => (lst, 0)) (openedDevice true) 1
      (some (some fencedContents)) (some freshList) =
      some ⟨openedDevice true, some (some fencedContents), none, [], -ENODEV⟩ := rfl
  refine ⟨_, hset, rfl, ?_⟩
  rw [early_released_iff]
  intro hunfenced
  exact absurd (hunfenced (fencedLayer 5) List.mem_cons_self).1 (by decide)

/-! ## Runs of frames -/

/-- Composer code of version 0 may rewrite the list, but not its length. -/
def KeepsCount (org : OrgPrepare) : Prop := ∀ lst, (org lst).1.numHwLayers = lst.numHwLayers

structure Frame (E : Type) where
  fbblanked : Bool
  numDisplays : ℕ
  displays : Displays E
  orgPrepare : { org : OrgPrepare // KeepsCount org }
  orgSet : OrgSet
  freshPrepare : HwcLayerList
  freshSet : HwcLayerList

/-- Blanking changes between frames only, and what `tegra2_prepare` leaves in
the contents is what `tegra2_set` finds there. -/
def composeFrame (samsung : Bool) (pdev : Tegra2HwcComposerDevice1) (f : Frame E) :
    Option (Prepared E × Shown E) := do
  let prepared ← tegra2Prepare f.orgPrepare.1 samsung { pdev with fbblanked := f.fbblanked }
    f.numDisplays f.displays (some f.freshPrepare)
  let shown ← tegra2Set f.orgSet prepared.device f.numDisplays prepared.displays (some f.freshSet)
  some (prepared, shown)

def composeFrames (samsung : Bool) (pdev : Tegra2HwcComposerDevice1) :
    List (Frame E) → Option (List (Prepared E × Shown E))
  | [] => some []
  | f::fs => do
    let x ← composeFrame samsung pdev f
    let xs ← composeFrames samsung x.2.device fs
    some (x::xs)

def outside (displays : Displays E) :
    Option (Option (BitVec 32 × BitVec 32 × List (ℤ × ℤ × E))) :=
  displays.map (Option.map (fun contents =>
    (contents.dpy, contents.sur, contents.hwLayers.map HwcLayer1.rest)))

structure Kept (f : Frame E) (x : Prepared E × Shown E) : Prop where
  handed : ∀ lst, x.2.handed = some lst → ∃ left, x.1.left = some left ∧ SameList lst left
  outside : outside x.1.displays = outside f.displays

theorem workaround_outside (samsung : Bool) (yres : ℤ) (contents : HwcDisplayContents1 E) :
    outside (some (some (workaround samsung yres contents))) = outside (some (some contents)) := by
  cases samsung with
  | false => rfl
  | true => simp [outside, workaround, padLayers_rest]

theorem copyBack_outside (contents : HwcDisplayContents1 E) (lst : HwcLayerList) :
    outside (some (some (copyLayerListToDisplayContents1 contents lst))) =
      outside (some (some contents)) := by
  simp [outside, copyLayerListToDisplayContents1, copyBack_map_rest]

theorem set_hands (org : OrgSet) (pdev : Tegra2HwcComposerDevice1) (numDisplays : ℕ)
    (displays : Displays E) (fresh : HwcLayerList) :
    ∃ r, tegra2Set org pdev numDisplays displays (some fresh) = some r ∧
      ∀ lst, r.handed = some lst → ∃ contents, displays = some (some contents) ∧
        SetForwards pdev numDisplays contents ∧ Carries lst contents := by
  by_cases hf : ∃ contents, displays = some (some contents) ∧ SetForwards pdev numDisplays contents
  · obtain ⟨contents, rfl, hf⟩ := hf
    obtain ⟨b, lst, hlst⟩ := translate_succeeds pdev.setXlatebuf fresh contents
    rw [set_forwarded org _ hf, hlst]
    refine ⟨_, rfl, ?_⟩
    intro handed hhanded
    obtain rfl := Option.some.inj hhanded
    exact ⟨contents, rfl, hf, translate_carries hlst⟩
  · obtain ⟨ret, hret⟩ := set_early org (some fresh)
      (fun c hc hforwards => hf ⟨c, hc, hforwards⟩)
    exact ⟨_, hret, fun _ h => nomatch h⟩

theorem prepare_leaves (org : OrgPrepare) (hcount : KeepsCount org) (samsung : Bool)
    (pdev : Tegra2HwcComposerDevice1) (numDisplays : ℕ) (displays : Displays E)
    (fresh : HwcLayerList) :
    ∃ r, tegra2Prepare org samsung pdev numDisplays displays (some fresh) = some r ∧
      r.device.fbblanked = pdev.fbblanked ∧ outside r.displays = outside displays ∧
      ∀ contents, r.displays = some (some contents) →
        PrepareForwards pdev numDisplays contents →
        ∃ left, r.left = some left ∧ Carries left contents := by
  by_cases hf : ∃ contents, displays = some (some contents) ∧
      PrepareForwards pdev numDisplays contents
  · obtain ⟨contents, rfl, hf⟩ := hf
    obtain ⟨b, lst, hlst⟩ := translate_succeeds pdev.prepareXlatebuf fresh
      (workaround samsung pdev.yres contents)
    rw [prepare_forwarded org samsung _ hf, hlst]
    refine ⟨_, rfl, rfl, ?_, ?_⟩
    · exact (copyBack_outside _ _).trans (workaround_outside samsung pdev.yres contents)
    · intro after hafter _
      obtain rfl := Option.some.inj (Option.some.inj hafter)
      have hn := (hcount lst).trans (translate_carries hlst).numHwLayers
      exact ⟨_, rfl, copyBack_carries _ _ hn⟩
  · obtain ⟨ret, hret⟩ := prepare_early org samsung (some fresh)
      (fun c hc hforwards => hf ⟨c, hc, hforwards⟩)
    refine ⟨_, hret, rfl, rfl, ?_⟩
    intro contents hcontents hforwards
    exact absurd ⟨contents, hcontents, hforwards⟩ hf

theorem composeFrame_kept (samsung : Bool) (pdev : Tegra2HwcComposerDevice1) (f : Frame E) :
    ∃ x, composeFrame samsung pdev f = some x ∧ Kept f x := by
  obtain ⟨prepared, hprepare, hblanked, houtside, hleft⟩ := prepare_leaves f.orgPrepare.1
    f.orgPrepare.2 samsung { pdev with fbblanked := f.fbblanked } f.numDisplays f.displays
    f.freshPrepare
  obtain ⟨shown, hset, hhanded⟩ := set_hands f.orgSet prepared.device f.numDisplays
    prepared.displays f.freshSet
  refine ⟨(prepared, shown), ?_, ?_, houtside⟩
  · rw [composeFrame, hprepare, Option.bind_eq_bind, Option.bind_some, hset, Option.bind_eq_bind,
      Option.bind_some]
  · intro lst hlst
    obtain ⟨contents, hcontents, ⟨⟨hnum, hlayers, hawake⟩, _⟩, hcarries⟩ := hhanded lst hlst
    obtain ⟨left, hl, hcarried⟩ := hleft contents hcontents
      ⟨hnum, hlayers, hblanked.symm.trans hawake⟩
    exact ⟨left, hl, hcarries.same hcarried⟩

theorem set_receives_prepared {E : Type} (samsung : Bool) (pdev : Tegra2HwcComposerDevice1)
    (frames : List (Frame E)) :
    ∃ results, composeFrames samsung pdev frames = some results ∧
      List.Forall₂ Kept frames results := by
  induction frames generalizing pdev with
  | nil => exact ⟨[], rfl, .nil⟩
  | cons f fs ih =>
    obtain ⟨x, hx, hkept⟩ := composeFrame_kept samsung pdev f
    obtain ⟨xs, hxs, hall⟩ := ih x.2.device
    refine ⟨x::xs, ?_, .cons hkept hall⟩
    rw [composeFrames, hx, Option.bind_eq_bind, Option.bind_some, hxs, Option.bind_eq_bind,
      Option.bind_some]

end Wingray.HwcFrames
