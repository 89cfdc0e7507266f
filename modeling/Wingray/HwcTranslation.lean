import Wingray.CellMemory

/-!
# The hardware composer wrapper: two layouts of one list

The wrapper offers the composer interface 1.0 on top of a composer of version
0. Each frame is copied into a translation buffer, handed to the old composer
and copied back.
-/

set_option autoImplicit false

namespace Wingray.HwcTranslation
open Wingray.CellMemory

def ENODEV : ℤ := 19

structure HwcRect where
  left : BitVec 32
  top : BitVec 32
  right : BitVec 32
  bottom : BitVec 32
  deriving DecidableEq

structure HwcRegion where
  numRects : BitVec 32
  rects : BitVec 32
  deriving DecidableEq

/-- `hwc_layer_t`; the four bytes of `handle` are also those of
`backgroundColor`. -/
structure HwcLayer where
  compositionType : BitVec 32
  hints : BitVec 32
  flags : BitVec 32
  handle : BitVec 32
  transform : BitVec 32
  blending : BitVec 32
  sourceCrop : HwcRect
  displayFrame : HwcRect
  visibleRegionScreen : HwcRegion
  deriving DecidableEq

/-- `hwc_layer_1_t`; `other` stands for the fields that neither copy knows. -/
structure HwcLayer1 (E : Type) extends HwcLayer where
  acquireFenceFd : ℤ
  releaseFenceFd : ℤ
  other : E

structure HwcLayerList where
  flags : BitVec 32
  numHwLayers : ℕ
  hwLayers : Memory HwcLayer

/-- `sizeof (hwc_layer_list_t)` and `sizeof (hwc_layer_t)` of the 32-bit platform. -/
def LIST_SIZE : ℕ := 8
def LAYER_SIZE : ℕ := 64

/-- A display's contents are an object of a 32-bit process, and larger than
their translation. -/
structure HwcDisplayContents1 (E : Type) where
  dpy : BitVec 32
  sur : BitVec 32
  flags : BitVec 32
  hwLayers : List (HwcLayer1 E)
  addressable : LIST_SIZE+LAYER_SIZE*hwLayers.length < 2^31

variable {E : Type}

/-! ## Copying a layer -/

def copyLayer1ToLayer (dst : HwcLayer) (src : HwcLayer1 E) : HwcLayer := { dst with
  compositionType := src.compositionType
  hints := src.hints
  flags := src.flags
  handle := src.handle
  transform := src.transform
  blending := src.blending
  sourceCrop := { dst.sourceCrop with
    left := src.sourceCrop.left
    top := src.sourceCrop.top
    bottom := src.sourceCrop.bottom
    right := src.sourceCrop.right }
  displayFrame := { dst.displayFrame with
    left := src.displayFrame.left
    top := src.displayFrame.top
    bottom := src.displayFrame.bottom
    right := src.displayFrame.right }
  visibleRegionScreen := src.visibleRegionScreen }

def copyLayerToLayer1 (dst : HwcLayer1 E) (src : HwcLayer) : HwcLayer1 E := { dst with
  compositionType := src.compositionType
  hints := src.hints
  flags := src.flags
  handle := src.handle
  transform := src.transform
  blending := src.blending
  sourceCrop := { dst.sourceCrop with
    left := src.sourceCrop.left
    top := src.sourceCrop.top
    bottom := src.sourceCrop.bottom
    right := src.sourceCrop.right }
  displayFrame := { dst.displayFrame with
    left := src.displayFrame.left
    top := src.displayFrame.top
    bottom := src.displayFrame.bottom
    right := src.displayFrame.right }
  visibleRegionScreen := src.visibleRegionScreen }

theorem copyLayer1ToLayer_eq (dst : HwcLayer) (src : HwcLayer1 E) :
    copyLayer1ToLayer dst src = src.toHwcLayer := rfl

theorem copyLayerToLayer1_toHwcLayer (dst : HwcLayer1 E) (src : HwcLayer) :
    (copyLayerToLayer1 dst src).toHwcLayer = src := rfl

def HwcLayer1.rest (layer : HwcLayer1 E) : ℤ × ℤ × E :=
  (layer.acquireFenceFd, layer.releaseFenceFd, layer.other)

theorem copyLayerToLayer1_rest (dst : HwcLayer1 E) (src : HwcLayer) :
    (copyLayerToLayer1 dst src).rest = dst.rest := rfl

/-! ## Copying a list -/

/-- The loop over the layers of the contents, from layer `d` of the list on. -/
def copyLayers (cells : Memory HwcLayer) (d : ℕ) : List (HwcLayer1 E) → Memory HwcLayer
  | [] => cells
  | x::xs => copyLayers (Function.update cells d (copyLayer1ToLayer (cells d) x)) (d+1) xs

def copyDisplayContents1ToLayerList (dst : HwcLayerList) (src : HwcDisplayContents1 E) :
    HwcLayerList where
  flags := src.flags
  numHwLayers := src.hwLayers.length
  hwLayers := copyLayers dst.hwLayers 0 src.hwLayers

def copyBack (cells : Memory HwcLayer) (s : ℕ) : List (HwcLayer1 E) → List (HwcLayer1 E)
  | [] => []
  | y::ys => copyLayerToLayer1 y (cells s) :: copyBack cells (s+1) ys

theorem copyBack_length (cells : Memory HwcLayer) (s : ℕ) (ys : List (HwcLayer1 E)) :
    (copyBack cells s ys).length = ys.length := by
  induction ys generalizing s with
  | nil => rfl
  | cons y ys ih => rw [copyBack, List.length_cons, List.length_cons, ih]

def copyLayerListToDisplayContents1 (dst : HwcDisplayContents1 E) (src : HwcLayerList) :
    HwcDisplayContents1 E := { dst with
  flags := src.flags
  hwLayers := copyBack src.hwLayers 0 dst.hwLayers
  addressable := by
    rw [copyBack_length]
    exact dst.addressable }

theorem copyLayers_eq_store (cells : Memory HwcLayer) (d : ℕ) (xs : List (HwcLayer1 E)) :
    copyLayers cells d xs = store cells d (xs.map HwcLayer1.toHwcLayer) := by
  induction xs generalizing cells d with
  | nil => exact (store_nil cells d).symm
  | cons x xs ih =>
    rw [copyLayers, ih, copyLayer1ToLayer_eq, List.map_cons, store_cons]

theorem copyBack_map_rest (cells : Memory HwcLayer) (s : ℕ) (ys : List (HwcLayer1 E)) :
    (copyBack cells s ys).map HwcLayer1.rest = ys.map HwcLayer1.rest := by
  induction ys generalizing s with
  | nil => rfl
  | cons y ys ih => rw [copyBack, List.map_cons, List.map_cons, ih, copyLayerToLayer1_rest]

theorem copyBack_map_layer (cells : Memory HwcLayer) (s : ℕ) (ys : List (HwcLayer1 E)) :
    (copyBack cells s ys).map HwcLayer1.toHwcLayer = slice cells s ys.length := by
  induction ys generalizing s with
  | nil => rfl
  | cons y ys ih =>
    rw [copyBack, List.map_cons, ih, copyLayerToLayer1_toHwcLayer, List.length_cons, slice_cons]

/-! ## The translation buffers -/

structure Block extends HwcLayerList where
  bytes : ℕ

/-- A pointer and the size the wrapper keeps beside it. -/
structure Xlatebuf where
  buf : Option Block
  size : ℤ
  sized : size = (buf.map Block.bytes).getD 0

def Xlatebuf.null : Xlatebuf := ⟨none, 0, rfl⟩

/-- `reqsz`, computed in 32 bits. -/
def reqsz (numHwLayers : ℕ) : ℤ := (BitVec.ofNat 32 (LIST_SIZE+LAYER_SIZE*numHwLayers)).toInt

def Fits (bytes numHwLayers : ℕ) : Prop := LIST_SIZE+LAYER_SIZE*numHwLayers ≤ bytes

instance (bytes numHwLayers : ℕ) : Decidable (Fits bytes numHwLayers) :=
  inferInstanceAs (Decidable (_ ≤ _))

/-- `realloc` keeps what lay in the old block. -/
def Block.realloc (old : Block) (bytes : ℕ) (fresh : HwcLayerList) : Block where
  flags := old.flags
  numHwLayers := old.numHwLayers
  hwLayers := fun i => if Fits old.bytes (i+1) then old.hwLayers i else fresh.hwLayers i
  bytes := bytes

theorem Xlatebuf.size_nonneg (b : Xlatebuf) : 0 ≤ b.size := by
  rw [b.sized]
  exact Int.natCast_nonneg _

/-- `alloc` is what the allocator returns if it is asked: nothing, or memory
with some contents. -/
def Xlatebuf.grow (b : Xlatebuf) (req : ℤ) (alloc : Option HwcLayerList) : Option Xlatebuf :=
  if h : b.size < req then
    alloc.map (fun fresh =>
      { buf := some (match b.buf with
          | none => ⟨fresh, req.toNat⟩
          | some old => old.realloc req.toNat fresh)
        size := req
        sized := by
          have hreq := Int.toNat_of_nonneg (b.size_nonneg.trans h.le)
          cases b.buf <;> exact hreq.symm })
  else some b

def Xlatebuf.write (b : Xlatebuf) (lst : HwcLayerList) : Xlatebuf where
  buf := b.buf.map (fun block => { block with toHwcLayerList := lst })
  size := b.size
  sized := by
    rw [b.sized]
    cases b.buf <;> rfl

/-- The contents in the layout of version 0. There is no result where the code
writes through a null pointer or past the end of its buffer. -/
def translate (b : Xlatebuf) (alloc : Option HwcLayerList) (contents : HwcDisplayContents1 E) :
    Option (Xlatebuf × HwcLayerList) := do
  let grown ← b.grow (reqsz contents.hwLayers.length) alloc
  let block ← grown.buf
  if Fits block.bytes contents.hwLayers.length then
    let lst := copyDisplayContents1ToLayerList block.toHwcLayerList contents
    some (grown.write lst, lst)
  else none

theorem reqsz_eq (contents : HwcDisplayContents1 E) : reqsz contents.hwLayers.length =
    (LIST_SIZE+LAYER_SIZE*contents.hwLayers.length : ℕ) := by
  have h := contents.addressable
  have hnat : (BitVec.ofNat 32 (LIST_SIZE+LAYER_SIZE*contents.hwLayers.length)).toNat =
      LIST_SIZE+LAYER_SIZE*contents.hwLayers.length := by
    rw [BitVec.toNat_ofNat]
    exact Nat.mod_eq_of_lt (h.trans (by decide))
  rw [reqsz, BitVec.toInt_eq_toNat_of_lt (by rw [hnat]; omega), hnat]

theorem grow_sized {b grown : Xlatebuf} {req : ℤ} {alloc : Option HwcLayerList}
    (h : b.grow req alloc = some grown) : req ≤ grown.size := by
  simp only [Xlatebuf.grow] at h
  split_ifs at h with hsize
  · obtain ⟨fresh, _, rfl⟩ := Option.map_eq_some_iff.mp h
    exact le_refl req
  · obtain rfl := Option.some.inj h
    exact not_lt.mp hsize

/-- The list that is handed over is the contents, whatever the buffer held. -/
structure Carries (lst : HwcLayerList) (contents : HwcDisplayContents1 E) : Prop where
  flags : lst.flags = contents.flags
  numHwLayers : lst.numHwLayers = contents.hwLayers.length
  hwLayers : slice lst.hwLayers 0 contents.hwLayers.length =
    contents.hwLayers.map HwcLayer1.toHwcLayer

theorem copy_carries (dst : HwcLayerList) (contents : HwcDisplayContents1 E) :
    Carries (copyDisplayContents1ToLayerList dst contents) contents where
  flags := rfl
  numHwLayers := rfl
  hwLayers := by
    have h := slice_store dst.hwLayers 0 (contents.hwLayers.map HwcLayer1.toHwcLayer)
    rw [List.length_map] at h
    rw [copyDisplayContents1ToLayerList, copyLayers_eq_store]
    exact h

theorem copyBack_carries (contents : HwcDisplayContents1 E) (lst : HwcLayerList)
    (h : lst.numHwLayers = contents.hwLayers.length) :
    Carries lst (copyLayerListToDisplayContents1 contents lst) where
  flags := rfl
  numHwLayers := h.trans (copyBack_length _ _ _).symm
  hwLayers := by
    rw [copyLayerListToDisplayContents1, copyBack_map_layer, copyBack_length]

structure SameList (lst lst' : HwcLayerList) : Prop where
  flags : lst.flags = lst'.flags
  numHwLayers : lst.numHwLayers = lst'.numHwLayers
  hwLayers : ∀ i < lst.numHwLayers, lst.hwLayers i = lst'.hwLayers i

theorem Carries.same {lst lst' : HwcLayerList} {contents : HwcDisplayContents1 E}
    (h : Carries lst contents) (h' : Carries lst' contents) : SameList lst lst' where
  flags := h.flags.trans h'.flags.symm
  numHwLayers := h.numHwLayers.trans h'.numHwLayers.symm
  hwLayers := by
    intro i hi
    have hslice := h.hwLayers.trans h'.hwLayers.symm
    rw [h.numHwLayers] at hi
    have hcell := congrArg (fun xs => xs[i]?) hslice
    simpa [slice, hi] using hcell

theorem translate_carries {b b' : Xlatebuf} {alloc : Option HwcLayerList}
    {contents : HwcDisplayContents1 E} {lst : HwcLayerList}
    (h : translate b alloc contents = some (b', lst)) : Carries lst contents := by
  simp only [translate, Option.bind_eq_bind, Option.bind_eq_some_iff,
    Option.ite_none_right_eq_some] at h
  obtain ⟨_, _, block, _, _, heq⟩ := h
  obtain ⟨_, rfl⟩ := Prod.mk.inj (Option.some.inj heq)
  exact copy_carries _ _

theorem translate_succeeds (b : Xlatebuf) (fresh : HwcLayerList)
    (contents : HwcDisplayContents1 E) :
    ∃ b' lst, translate b (some fresh) contents = some (b', lst) := by
  have hgrow : ∃ grown, b.grow (reqsz contents.hwLayers.length) (some fresh) = some grown := by
    simp only [Xlatebuf.grow]
    split_ifs
    · exact ⟨_, rfl⟩
    · exact ⟨_, rfl⟩
  obtain ⟨grown, hg⟩ := hgrow
  have hsize := grow_sized hg
  rw [reqsz_eq, grown.sized] at hsize
  obtain ⟨block, hb⟩ : ∃ block, grown.buf = some block := by
    apply Option.ne_none_iff_exists'.mp
    intro hnone
    rw [hnone] at hsize
    simp only [LIST_SIZE, Option.map_none, Option.getD_none] at hsize
    omega
  rw [hb, Option.map_some, Option.getD_some] at hsize
  have hfits : Fits block.bytes contents.hwLayers.length := Int.ofNat_le.mp hsize
  exact ⟨_, _, by rw [translate, hg, Option.bind_eq_bind, Option.bind_some, hb,
    Option.bind_eq_bind, Option.bind_some, if_pos hfits]⟩

end Wingray.HwcTranslation
