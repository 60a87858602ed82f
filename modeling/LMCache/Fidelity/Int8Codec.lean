import Mathlib.Data.Rat.Floor
import LMCache.Fidelity.DualStore
import LMCache.Foundations.Tensors
import LMCache.Foundations.Substitution
import LMCache.MemoryManagement.PageLayout
import LMCache.Protocol.MetaMessages

namespace LMCache

open List

namespace Utils.TorchDtype

def itemsize : TorchDtype → ℕ
  | .float64 | .int64 => 8
  | .float32 | .int32 => 4
  | .float16 | .bfloat16 | .int16 => 2
  | .int8 | .uint8 | .bool => 1
  | .float8E4m3fn | .float8E4m3fnuz | .float8E5m2 | .float8E5m2fnuz => 1

theorem itemsize_pos (dtype : TorchDtype) : 0 < dtype.itemsize := by
  cases dtype <;> decide

def torchName : TorchDtype → List Char
  | .float16 => "float16".toList
  | .bfloat16 => "bfloat16".toList
  | .float32 => "float32".toList
  | .float64 => "float64".toList
  | .int8 => "int8".toList
  | .uint8 => "uint8".toList
  | .int16 => "int16".toList
  | .int32 => "int32".toList
  | .int64 => "int64".toList
  | .bool => "bool".toList
  | .float8E4m3fn => "float8_e4m3fn".toList
  | .float8E4m3fnuz => "float8_e4m3fnuz".toList
  | .float8E5m2 => "float8_e5m2".toList
  | .float8E5m2fnuz => "float8_e5m2fnuz".toList

end Utils.TorchDtype

namespace Fidelity

open Utils Broadcast Quantization PageLayout

def torchText : List Char := "torch.".toList

def groupCountKey : List Char := "lmcache.fidelity.group_count".toList

def originalShapesKey : List Char := "lmcache.fidelity.original_shapes".toList

def originalDtypesKey : List Char := "lmcache.fidelity.original_dtypes".toList

def dtypeToStr (dtype : TorchDtype) : List Char := torchText ++ dtype.torchName

def dtypeFromStr (dtypeStr : List Char) : Option TorchDtype :=
  TorchDtype.all.find? fun dtype =>
    dtype.torchName == Substitution.replaceAll torchText [] dtypeStr

inductive CodecError where
  | notFloating (dtype : TorchDtype)
  | emptyRows
  | notBroadcastable
  | tensor (error : TensorError)
  | missingTensor (groupIdx : ℕ)
  | missingSlot (groupIdx : ℕ)
  | missingGroup (groupIdx : ℕ)
  | encodeAllocation
  | decodeAllocation
  | assertionFailed
  | indexError
  | keyError (key : List Char)
  | attributeError (name : List Char)

structure Tensor where
  shape : List ℕ
  dtype : TorchDtype
  value : List ℕ → ℚ

variable (t : Tensor)

namespace Tensor

def toDtype (dtype : TorchDtype) : Tensor := { t with dtype := dtype }

def map (f : ℚ → ℚ) : Tensor := { t with value := fun index => f (t.value index) }

def row (index : List ℕ) : List ℚ :=
  if t.shape = [] then [t.value index]
  else (range (t.shape.getLastD 0)).map fun i => t.value (index.dropLast ++ [i])

def amax : Except CodecError Tensor :=
  if t.shape.getLast? = some 0 then .error .emptyRows
  else .ok { t with shape := keepLast t.shape, value := fun index => (t.row index).max?.getD 0 }

def zipWith (f : ℚ → ℚ → ℚ) (s t : Tensor) : Except CodecError Tensor :=
  match common s.shape t.shape with
  | none => .error .notBroadcastable
  | some shape => .ok {
      shape := shape
      dtype := s.dtype
      value := fun index => f (s.value (source s.shape index)) (t.value (source t.shape index)) }

def copy (dst src : Tensor) : Except CodecError Tensor :=
  if common dst.shape src.shape = some dst.shape then
    .ok { dst with value := fun index => src.value (source src.shape index) }
  else .error .notBroadcastable

end Tensor

structure CodecExtra (V : Type) where
  codec : Option (List Char)
  codecVersion : Option ℤ
  groupCount : Option ℤ
  originalShapes : Option (List (List ℕ))
  originalDtypes : Option (List (List Char))
  others : List (List Char × V)

structure CodecObj (V : Type) where
  tensors : List Tensor
  nonempty : tensors ≠ []
  rawData : Region
  valid : Bool
  fmt : Protocol.MemoryFormat
  cachedPositions : Option Tensor
  extra : Option (CodecExtra V)

namespace CodecObj

variable {V : Type} (obj : CodecObj V)

def shapes : List (List ℕ) := obj.tensors.map Tensor.shape

def dtypes : List TorchDtype := obj.tensors.map Tensor.dtype

def groups : TensorGroups where
  shapes := obj.shapes
  dtypes := obj.dtypes.map fun dtype => ⟨dtype.itemsize, dtype.itemsize_pos⟩
  sameLength := by simp only [shapes, dtypes, length_map]
  nonempty := fun h => obj.nonempty (map_eq_nil_iff.mp h)

def layout : PageLayout.TensorMemoryObj :=
  { PageLayout.TensorMemoryObj.init obj.rawData obj.groups obj.rawData.start with valid := obj.valid }

def getTensor (obj : CodecObj V) (index : ℕ) : Except CodecError (Option Tensor) :=
  match obj.layout.getTensor index with
  | .error error => .error (.tensor error)
  | .ok none => .ok none
  | .ok (some _) => .ok obj.tensors[index]?

def set (obj : CodecObj V) (index : ℕ) (t : Tensor) : CodecObj V :=
  { obj with
    tensors := obj.tensors.set index t
    nonempty := fun h => obj.nonempty (length_eq_zero_iff.mp
      (length_set.symm.trans (congrArg length h))) }

end CodecObj

structure CodecBlock where
  rawData : Region
  contents : ℕ → List ℕ → ℚ

structure CodecAllocator where
  allocate : List (List ℕ) → List TorchDtype → Protocol.MemoryFormat → Option CodecBlock

def CodecBlock.tensors (block : CodecBlock) (shapes : List (List ℕ)) (dtypes : List TorchDtype) :
    List Tensor :=
  (shapes.zip dtypes).zipIdx.map fun group => ⟨group.1.1, group.1.2, block.contents group.2⟩

def CodecAllocator.allocateObj {V : Type} (allocator : CodecAllocator) (shapes : List (List ℕ))
    (dtypes : List TorchDtype) (fmt : Protocol.MemoryFormat) :
    Except CodecError (Option (CodecObj V)) :=
  if shapes.length ≠ dtypes.length then .error .assertionFailed
  else
    match allocator.allocate shapes dtypes fmt with
    | none => .ok none
    | some block =>
        if h : block.tensors shapes dtypes = [] then .error .indexError
        else .ok (some {
          tensors := block.tensors shapes dtypes
          nonempty := h
          rawData := block.rawData
          valid := true
          fmt := fmt
          cachedPositions := none
          extra := none })

structure Int8BaseCodec where
  scaleDtype : TorchDtype
  minScale : ℚ
  floating : scaleDtype.isFloatingPoint = true
  positive : 0 < minScale

def int8Name : List Char := "int8".toList

def required {A : Type} (error : CodecError) : Option A → Except CodecError A
  | none => .error error
  | some a => .ok a

namespace Int8BaseCodec

variable {V : Type} (codec : Int8BaseCodec)

def create : Int8BaseCodec where
  scaleDtype := .float32
  minScale := 1 / 10 ^ 8
  floating := rfl
  positive := by norm_num

def rowScale (working : Tensor) : Except CodecError Tensor := do
  let scale ← (working.map abs).amax
  return scale.map fun m => max (m / 127) codec.minScale

def encodeBaseTensor (tensor : Tensor) : Except CodecError (Tensor × Tensor) :=
  if !tensor.dtype.isFloatingPoint then .error (.notFloating tensor.dtype)
  else do
    let scale ← codec.rowScale (tensor.toDtype .float32)
    let ratio ← (tensor.toDtype .float32).zipWith (· / ·) scale
    let quantized := ratio.map fun x => clamp (-128) 127 (roundHalfEven x)
    return (quantized.toDtype .int8, scale.toDtype codec.scaleDtype)

def decodeBaseTensor (quantized scale : Tensor) (outputDtype : TorchDtype) :
    Except CodecError Tensor := do
  let product ← (quantized.toDtype .float32).zipWith (· * ·) (scale.toDtype .float32)
  return product.toDtype outputDtype

def isEncodedMemoryObj (memoryObj : CodecObj V) : Bool :=
  match memoryObj.extra with
  | none => false
  | some extra => extra.codec == some int8Name && extra.codecVersion == some 1

def encodeGroups (memoryObj : CodecObj V) : List ℕ → Except CodecError (List Tensor)
  | [] => .ok []
  | groupIdx :: groupIdxs => do
      let groupTensor ← required (.missingTensor groupIdx) (← memoryObj.getTensor groupIdx)
      let (quantized, storedScale) ← codec.encodeBaseTensor groupTensor
      let encodedTensors ← encodeGroups memoryObj groupIdxs
      return quantized :: storedScale :: encodedTensors

def fillSlot (encoded : CodecObj V) (slot : Tensor × ℕ) : Except CodecError (CodecObj V) := do
  let dst ← required (.missingSlot slot.2) (← encoded.getTensor slot.2)
  let dst ← dst.copy slot.1
  return encoded.set slot.2 dst

def encodedExtra (memoryObj : CodecObj V) : CodecExtra V where
  codec := some int8Name
  codecVersion := some 1
  groupCount := some memoryObj.shapes.length
  originalShapes := some memoryObj.shapes
  originalDtypes := some (memoryObj.dtypes.map dtypeToStr)
  others := (memoryObj.extra.map CodecExtra.others).getD []

def encode (allocator : CodecAllocator) (memoryObj : CodecObj V) : Except CodecError (CodecObj V) :=
  if isEncodedMemoryObj memoryObj then .ok memoryObj
  else do
    let encodedTensors ← codec.encodeGroups memoryObj (range memoryObj.shapes.length)
    let encoded : CodecObj V ← required .encodeAllocation (← allocator.allocateObj
      (encodedTensors.map Tensor.shape) (encodedTensors.map Tensor.dtype) memoryObj.fmt)
    let encoded ← encodedTensors.zipIdx.foldlM fillSlot encoded
    return { encoded with
      extra := some (encodedExtra memoryObj)
      cachedPositions := memoryObj.cachedPositions }

def decodeGroup (memoryObj decoded : CodecObj V) (groupIdx : ℕ) :
    Except CodecError (CodecObj V) := do
  let quantized ← memoryObj.getTensor (groupIdx * 2)
  let scale ← memoryObj.getTensor (groupIdx * 2 + 1)
  let dst ← decoded.getTensor groupIdx
  let quantized ← required (.missingGroup groupIdx) quantized
  let scale ← required (.missingGroup groupIdx) scale
  let dst ← required (.missingGroup groupIdx) dst
  let restored ← decodeBaseTensor quantized scale dst.dtype
  let dst ← dst.copy restored
  return decoded.set groupIdx dst

def dtypesFromStr : List (List Char) → Except CodecError (List TorchDtype)
  | [] => .ok []
  | name :: names => do
      let dtype ← required (.attributeError name) (dtypeFromStr name)
      let dtypes ← dtypesFromStr names
      return dtype :: dtypes

def decodedExtra (extra : CodecExtra V) : Option (CodecExtra V) :=
  if extra.others = [] then none else some ⟨none, none, none, none, none, extra.others⟩

def decode (allocator : CodecAllocator) (memoryObj : CodecObj V) : Except CodecError (CodecObj V) :=
  if !isEncodedMemoryObj memoryObj then .ok memoryObj
  else do
    let extra := memoryObj.extra.getD ⟨none, none, none, none, none, []⟩
    let groupCount ← required (.keyError groupCountKey) extra.groupCount
    let originalShapes ← required (.keyError originalShapesKey) extra.originalShapes
    let names ← required (.keyError originalDtypesKey) extra.originalDtypes
    let originalDtypes ← dtypesFromStr names
    let decoded : CodecObj V ← required .decodeAllocation
      (← allocator.allocateObj originalShapes originalDtypes memoryObj.fmt)
    let decoded ← (range groupCount.toNat).foldlM (decodeGroup memoryObj) decoded
    return { decoded with
      extra := decodedExtra extra
      cachedPositions := memoryObj.cachedPositions }

end Int8BaseCodec

def sizesOf (shapes : List (List ℕ)) (dtypes : List TorchDtype) : List ℕ :=
  zipWith (fun shape dtype => numel shape * dtype.itemsize) shapes dtypes

def bytesOf (rawData : Region) (shapes : List (List ℕ)) (dtypes : List TorchDtype) (i : ℕ) :
    Region :=
  slice rawData (Offsets.offset (sizesOf shapes dtypes) i)
    (Offsets.offset (sizesOf shapes dtypes) (i + 1))

def Fits (rawData : Region) (shapes : List (List ℕ)) (dtypes : List TorchDtype) : Prop :=
  ∀ i shape dtype, shapes[i]? = some shape → dtypes[i]? = some dtype →
    (bytesOf rawData shapes dtypes i).size = numel shape * dtype.itemsize ∧
      dtype.itemsize ∣ (bytesOf rawData shapes dtypes i).start

section Views

variable {V : Type} {obj : CodecObj V}

theorem sizes_groups (obj : CodecObj V) : obj.groups.sizes = sizesOf obj.shapes obj.dtypes := by
  rw [TensorGroups.sizes, CodecObj.groups, zipWith_map_right, sizesOf]

variable {i : ℕ}

theorem getTensor_iff {t : Tensor} :
    obj.getTensor i = .ok (some t) ↔ obj.valid = true ∧ obj.tensors[i]? = some t ∧
      (bytesOf obj.rawData obj.shapes obj.dtypes i).size = numel t.shape * t.dtype.itemsize ∧
        t.dtype.itemsize ∣ (bytesOf obj.rawData obj.shapes obj.dtypes i).start := by
  rw [CodecObj.getTensor]
  cases hvalid : obj.valid with
  | false =>
    have hnone : obj.layout.getTensor i = .ok none := by
      rw [PageLayout.TensorMemoryObj.getTensor, if_pos (by simp [CodecObj.layout, hvalid])]
    simp [hnone]
  | true =>
    have hviews : ∀ {t : Tensor}, obj.tensors[i]? = some t →
        ((∃ view, obj.layout.getTensor i = .ok (some view)) ↔
          (bytesOf obj.rawData obj.shapes obj.dtypes i).size = numel t.shape * t.dtype.itemsize ∧
            t.dtype.itemsize ∣ (bytesOf obj.rawData obj.shapes obj.dtypes i).start) := by
      intro t ht
      have hshape : obj.groups.shapes[i]? = some t.shape := by
        simp only [CodecObj.groups, CodecObj.shapes, getElem?_map, ht, Option.map_some]
      have hdtype : obj.groups.dtypes[i]? = some ⟨t.dtype.itemsize, t.dtype.itemsize_pos⟩ := by
        simp only [CodecObj.groups, CodecObj.dtypes, getElem?_map, ht, Option.map_some]
      have hsums : obj.layout.groupPrefixSum =
        (obj.groups.sizes.foldl Offsets.addUp ([0], 0)).1 := rfl
      have hlt : i < obj.groups.sizes.length := by
        rw [TensorGroups.length_sizes]
        exact (List.getElem?_eq_some_iff.mp hshape).1
      rw [PageLayout.TensorMemoryObj.exists_getTensor_iff hvalid hsums hshape hdtype,
        and_iff_right hlt, sizes_groups]
      rfl
    constructor
    · intro h
      cases hview : obj.layout.getTensor i with
      | error error =>
        rw [hview] at h
        cases h
      | ok view =>
        rw [hview] at h
        cases view with
        | none => cases h
        | some view =>
          have ht : obj.tensors[i]? = some t := Except.ok.inj h
          exact ⟨rfl, ht, (hviews ht).mp ⟨view, hview⟩⟩
    · rintro ⟨_, ht, hbytes⟩
      obtain ⟨view, hview⟩ := (hviews ht).mpr hbytes
      rw [hview, ← ht]

theorem fits_iff (hvalid : obj.valid = true) :
    Fits obj.rawData obj.shapes obj.dtypes ↔
      ∀ i t, obj.tensors[i]? = some t → obj.getTensor i = .ok (some t) := by
  constructor
  · intro h i t ht
    refine getTensor_iff.mpr ⟨hvalid, ht, h i t.shape t.dtype ?_ ?_⟩
    · rw [CodecObj.shapes, getElem?_map, ht, Option.map_some]
    · rw [CodecObj.dtypes, getElem?_map, ht, Option.map_some]
  · intro h i shape dtype hshape hdtype
    rw [CodecObj.shapes, getElem?_map, Option.map_eq_some_iff] at hshape
    obtain ⟨t, ht, rfl⟩ := hshape
    rw [CodecObj.dtypes, getElem?_map, ht, Option.map_some, Option.some.injEq] at hdtype
    rw [← hdtype]
    exact (getTensor_iff.mp (h i t ht)).2.2

structure Alike (a b : CodecObj V) : Prop where
  shapes : a.shapes = b.shapes
  dtypes : a.dtypes = b.dtypes
  rawData : a.rawData = b.rawData
  valid : a.valid = b.valid
  fmt : a.fmt = b.fmt

theorem Alike.refl (obj : CodecObj V) : Alike obj obj := ⟨rfl, rfl, rfl, rfl, rfl⟩

theorem map_set_of_getElem? {A B : Type} {xs : List A} {f : A → B} {a : A}
    (h : (xs.map f)[i]? = some (f a)) : (xs.set i a).map f = xs.map f := by
  obtain ⟨hi, hget⟩ := List.getElem?_eq_some_iff.mp h
  rw [map_set, ← hget, set_getElem_self]

theorem Alike.set {a b : CodecObj V} (h : Alike a b) {t : Tensor}
    (hshape : b.shapes[i]? = some t.shape) (hdtype : b.dtypes[i]? = some t.dtype) :
    Alike (a.set i t) b := by
  refine ⟨?_, ?_, h.rawData, h.valid, h.fmt⟩
  · rw [← h.shapes] at hshape ⊢
    exact map_set_of_getElem? hshape
  · rw [← h.dtypes] at hdtype ⊢
    exact map_set_of_getElem? hdtype

variable {a b : CodecObj V}

theorem Alike.fits (h : Alike a b) (hvalid : b.valid = true)
    (hfits : Fits b.rawData b.shapes b.dtypes) {t : Tensor} (ht : a.tensors[i]? = some t) :
    a.getTensor i = .ok (some t) := by
  rw [← h.rawData, ← h.shapes, ← h.dtypes] at hfits
  exact (fits_iff (h.valid.trans hvalid)).mp hfits i t ht

theorem Alike.set_got (h : Alike a b) {dst t : Tensor} (hget : a.getTensor i = .ok (some dst))
    (hshape : t.shape = dst.shape) (hdtype : t.dtype = dst.dtype) : Alike (a.set i t) b := by
  have hdst := (getTensor_iff.mp hget).2.1
  refine h.set ?_ ?_
  · rw [← h.shapes, CodecObj.shapes, getElem?_map, hdst, Option.map_some, hshape]
  · rw [← h.dtypes, CodecObj.dtypes, getElem?_map, hdst, Option.map_some, hdtype]

theorem Alike.slot (h : Alike a b) (hvalid : b.valid = true)
    (hfits : Fits b.rawData b.shapes b.dtypes) {srcs : List Tensor}
    (hshapes : b.shapes = srcs.map Tensor.shape) (hdtypes : b.dtypes = srcs.map Tensor.dtype)
    {src : Tensor} (hsrc : srcs[i]? = some src) :
    ∃ dst, a.getTensor i = .ok (some dst) ∧ dst.shape = src.shape ∧ dst.dtype = src.dtype := by
  have hshape : a.shapes[i]? = some src.shape := by
    rw [h.shapes, hshapes, getElem?_map, hsrc, Option.map_some]
  have hdtype : a.dtypes[i]? = some src.dtype := by
    rw [h.dtypes, hdtypes, getElem?_map, hsrc, Option.map_some]
  rw [CodecObj.shapes, getElem?_map, Option.map_eq_some_iff] at hshape
  obtain ⟨dst, hdst, hshape⟩ := hshape
  rw [CodecObj.dtypes, getElem?_map, hdst, Option.map_some, Option.some.injEq] at hdtype
  exact ⟨dst, h.fits hvalid hfits hdst, hshape, hdtype⟩

theorem fits_of_got (h : ∀ i < obj.shapes.length, ∃ a t, Alike a obj ∧
    a.getTensor i = .ok (some t)) : Fits obj.rawData obj.shapes obj.dtypes := by
  intro i shape dtype hshape hdtype
  obtain ⟨a, t, halike, hget⟩ := h i (List.getElem?_eq_some_iff.mp hshape).1
  obtain ⟨_, ht, hbytes⟩ := getTensor_iff.mp hget
  rw [← halike.shapes, CodecObj.shapes, getElem?_map, ht, Option.map_some,
    Option.some.injEq] at hshape
  rw [← halike.dtypes, CodecObj.dtypes, getElem?_map, ht, Option.map_some,
    Option.some.injEq] at hdtype
  rw [halike.rawData, halike.shapes, halike.dtypes, hshape, hdtype] at hbytes
  exact hbytes

section Slots

variable {A : Type} {step : CodecObj V → A × ℕ → Except CodecError (CodecObj V)}
  {srcs : List A}
variable (step) in
theorem foldlM_slots_ok (written : A → Tensor)
    (hshapes : obj.shapes = srcs.map fun a => (written a).shape)
    (hdtypes : obj.dtypes = srcs.map fun a => (written a).dtype)
    (hstep : ∀ i a, srcs[i]? = some a → ∀ obj', Alike obj' obj →
      step obj' (a, i) = .ok (obj'.set i (written a))) :
    ∃ filled, srcs.zipIdx.foldlM step obj = .ok filled ∧ Alike filled obj ∧
      filled.tensors = srcs.map written := by
  have hrest : ∀ rest done obj', srcs = done ++ rest → Alike obj' obj →
      obj'.tensors.take done.length = done.map written →
      ∃ filled, (rest.zipIdx done.length).foldlM step obj' = .ok filled ∧ Alike filled obj ∧
        filled.tensors = srcs.map written := by
    intro rest
    induction rest with
    | nil =>
      intro done obj' hsrcs halike hdone
      rw [append_nil] at hsrcs
      have hlength : obj'.tensors.length = done.length := by
        have hcount := congrArg length (halike.shapes.trans hshapes)
        rwa [CodecObj.shapes, length_map, length_map, hsrcs] at hcount
      rw [← hlength, take_length] at hdone
      exact ⟨obj', rfl, halike, hsrcs ▸ hdone⟩
    | cons a rest ih =>
      intro done obj' hsrcs halike hdone
      have ha : srcs[done.length]? = some a := by
        rw [hsrcs, getElem?_append_right le_rfl, Nat.sub_self, getElem?_cons_zero]
      have hshape : obj.shapes[done.length]? = some (written a).shape := by
        rw [hshapes, getElem?_map, ha, Option.map_some]
      have hdtype : obj.dtypes[done.length]? = some (written a).dtype := by
        rw [hdtypes, getElem?_map, ha, Option.map_some]
      have hlt : done.length < obj'.tensors.length := by
        rw [← halike.shapes, CodecObj.shapes] at hshape
        exact List.length_map Tensor.shape ▸ (List.getElem?_eq_some_iff.mp hshape).1
      rw [zipIdx_cons, foldlM_cons, hstep _ a ha obj' halike]
      have hnext := ih (done ++ [a]) (obj'.set done.length (written a))
        (by rw [hsrcs, append_assoc, singleton_append]) (halike.set hshape hdtype)
      rw [length_append, length_singleton] at hnext
      refine hnext ?_
      rw [CodecObj.set, map_append, map_singleton, ← hdone]
      dsimp only
      rw [take_add_one, take_set_of_le le_rfl, getElem?_set_self hlt, Option.toList_some]
  exact hrest srcs [] obj rfl (.refl obj) rfl

theorem foldlM_slots_inv (hkeeps : ∀ obj' slot filled, Alike obj' obj →
      step obj' slot = .ok filled → Alike filled obj)
    {slots : List (A × ℕ)} {obj' filled : CodecObj V} (halike : Alike obj' obj) (h : slots.foldlM step obj' = .ok filled) :
    Alike filled obj ∧ ∀ slot ∈ slots, ∃ before after, Alike before obj ∧
      step before slot = .ok after := by
  induction slots generalizing obj' with
  | nil =>
    obtain rfl := Except.ok.inj h
    exact ⟨halike, fun _ hmem => nomatch hmem⟩
  | cons slot slots ih =>
    rw [foldlM_cons, bind_eq_ok_iff] at h
    obtain ⟨next, hnext, hrest⟩ := h
    obtain ⟨hfilled, hslots⟩ := ih (hkeeps _ _ _ halike hnext) hrest
    exact ⟨hfilled, forall_mem_cons.mpr ⟨⟨obj', next, halike, hnext⟩, hslots⟩⟩

end Slots

end Views

structure Allocated {V : Type} (block : CodecBlock) (shapes : List (List ℕ))
    (dtypes : List TorchDtype) (fmt : Protocol.MemoryFormat) (obj : CodecObj V) : Prop where
  shapes : obj.shapes = shapes
  dtypes : obj.dtypes = dtypes
  rawData : obj.rawData = block.rawData
  valid : obj.valid = true
  fmt : obj.fmt = fmt

section Allocation

variable {V : Type} {allocator : CodecAllocator} {shapes : List (List ℕ)}
  {dtypes : List TorchDtype} {fmt : Protocol.MemoryFormat} {block : CodecBlock}

theorem map_shape_tensors (hlength : shapes.length = dtypes.length) :
    (block.tensors shapes dtypes).map Tensor.shape = shapes := by
  have hshape : (Tensor.shape ∘ fun group : (List ℕ × TorchDtype) × ℕ =>
    (⟨group.1.1, group.1.2, block.contents group.2⟩ : Tensor)) = Prod.fst ∘ Prod.fst := rfl
  rw [CodecBlock.tensors, map_map, hshape, ← map_map, zipIdx_map_fst, map_fst_zip hlength.le]

theorem map_dtype_tensors (hlength : shapes.length = dtypes.length) :
    (block.tensors shapes dtypes).map Tensor.dtype = dtypes := by
  have hdtype : (Tensor.dtype ∘ fun group : (List ℕ × TorchDtype) × ℕ =>
    (⟨group.1.1, group.1.2, block.contents group.2⟩ : Tensor)) = Prod.snd ∘ Prod.fst := rfl
  rw [CodecBlock.tensors, map_map, hdtype, ← map_map, zipIdx_map_fst, map_snd_zip hlength.ge]

theorem allocateObj_ok (hlength : shapes.length = dtypes.length) (hne : shapes ≠ [])
    (hblock : allocator.allocate shapes dtypes fmt = some block) :
    ∃ obj : CodecObj V, allocator.allocateObj shapes dtypes fmt = .ok (some obj) ∧
      Allocated block shapes dtypes fmt obj := by
  have hshapes : (block.tensors shapes dtypes).map Tensor.shape = shapes :=
    map_shape_tensors hlength
  have htensors : block.tensors shapes dtypes ≠ [] := by
    intro hnil
    rw [hnil] at hshapes
    exact hne hshapes.symm
  refine ⟨⟨_, htensors, block.rawData, true, fmt, none, none⟩, ?_,
    ⟨hshapes, map_dtype_tensors hlength, rfl, rfl, rfl⟩⟩
  rw [CodecAllocator.allocateObj, if_neg (not_not.mpr hlength), hblock]
  exact dif_neg htensors

theorem allocateObj_inv {obj : CodecObj V}
    (h : allocator.allocateObj shapes dtypes fmt = .ok (some obj)) :
    ∃ block, allocator.allocate shapes dtypes fmt = some block ∧
      Allocated block shapes dtypes fmt obj := by
  rw [CodecAllocator.allocateObj] at h
  split_ifs at h with hlength
  cases hblock : allocator.allocate shapes dtypes fmt with
  | none =>
    rw [hblock] at h
    cases h
  | some block =>
    rw [hblock] at h
    dsimp only at h
    split_ifs at h with htensors
    obtain rfl := Option.some.inj (Except.ok.inj h)
    exact ⟨block, rfl, map_shape_tensors (not_not.mp hlength),
      map_dtype_tensors (not_not.mp hlength), rfl, rfl, rfl⟩

end Allocation

theorem required_eq_ok_iff {A : Type} {error : CodecError} {o : Option A} {a : A} :
    required error o = .ok a ↔ o = some a := by
  cases o <;> simp [required]

namespace Tensor

def copied : Tensor := { t with value := fun index => t.value (source t.shape index) }

theorem copy_eq {dst src : Tensor} (hshape : dst.shape = src.shape)
    (hdtype : dst.dtype = src.dtype) : dst.copy src = .ok src.copied := by
  rw [copy, if_pos (hshape ▸ common_self dst.shape), copied, hshape, hdtype]

theorem shape_dtype_of_copy {dst src t : Tensor} (h : dst.copy src = .ok t) :
    t.shape = dst.shape ∧ t.dtype = dst.dtype := by
  rw [copy] at h
  split_ifs at h with hcommon
  obtain rfl := Except.ok.inj h
  exact ⟨rfl, rfl⟩

end Tensor

end Fidelity

end LMCache
