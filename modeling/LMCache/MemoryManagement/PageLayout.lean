import Mathlib.Data.List.FinRange
import LMCache.Foundations.Offsets
import LMCache.Foundations.Region

namespace LMCache.PageLayout

open Offsets List

structure Dtype where
  itemsize : ℕ
  positive : 0 < itemsize

def numel (shape : List ℕ) : ℕ := shape.prod

structure TensorGroups where
  shapes : List (List ℕ)
  dtypes : List Dtype
  sameLength : shapes.length = dtypes.length
  nonempty : shapes ≠ []

namespace TensorGroups

def sizes (groups : TensorGroups) : List ℕ :=
  zipWith (fun shape dtype => numel shape * dtype.itemsize) groups.shapes groups.dtypes

def sizeBytes (groups : TensorGroups) : ℕ := groups.sizes.sum

end TensorGroups

structure TensorMemoryObj where
  groups : TensorGroups
  address : ℕ
  refCount : ℤ
  rawData : Region
  groupPrefixSum : List ℕ
  valid : Bool

structure TensorView where
  bytes : Region
  dtype : Dtype
  shape : List ℕ

inductive TensorError where
  | indexError
  | viewError
deriving DecidableEq

def slice (r : Region) (first last : ℕ) : Region :=
  ⟨r.start + min first r.size, min last r.size - min first r.size⟩

def viewDtype (bytes : Region) (dtype : Dtype) : Except TensorError Region :=
  if dtype.itemsize ∣ bytes.size ∧ dtype.itemsize ∣ bytes.start then .ok bytes else .error .viewError

def viewShape (bytes : Region) (dtype : Dtype) (shape : List ℕ) : Except TensorError TensorView :=
  if bytes.size / dtype.itemsize = numel shape then .ok ⟨bytes, dtype, shape⟩ else .error .viewError

def item {α : Type} (xs : List α) (i : ℕ) : Except TensorError α :=
  match xs[i]? with
  | none => .error .indexError
  | some x => .ok x

namespace TensorMemoryObj

def init (rawData : Region) (groups : TensorGroups) (address : ℕ) : TensorMemoryObj where
  groups := groups
  address := address
  refCount := 1
  rawData := rawData
  groupPrefixSum := (groups.sizes.foldl addUp ([0], 0)).1
  valid := true

def getSize (obj : TensorMemoryObj) : ℕ := obj.groupPrefixSum.getLast?.getD 0

def getTensor (obj : TensorMemoryObj) (index : ℕ) : Except TensorError (Option TensorView) :=
  if !obj.valid then .ok none
  else do
    let first ← item obj.groupPrefixSum index
    let last ← item obj.groupPrefixSum (index + 1)
    let dtype ← item obj.groups.dtypes index
    let bytes ← viewDtype (slice obj.rawData first last) dtype
    let shape ← item obj.groups.shapes index
    let view ← viewShape bytes dtype shape
    .ok (some view)

end TensorMemoryObj

structure PagedConfig where
  groups : TensorGroups
  bufferSize : ℕ
  storageOffset : ℕ
  positive : 0 < groups.sizeBytes
  aligned : bufferSize % groups.sizeBytes = 0

namespace PagedConfig

def alignBytes (c : PagedConfig) : ℕ := c.groups.sizeBytes

def numPages (c : PagedConfig) : ℕ := max (c.bufferSize / c.alignBytes) 1

def pagedBuffer (c : PagedConfig) (page : ℕ) : Region :=
  ⟨c.storageOffset + page * c.alignBytes, min c.alignBytes (c.bufferSize - page * c.alignBytes)⟩

end PagedConfig

structure PagedTensorMemoryAllocator (c : PagedConfig) where
  objects : Fin c.numPages → TensorMemoryObj
  freeBlocks : List (Fin c.numPages)
  numActiveAllocations : ℤ
  totalAllocatedSize : ℤ

namespace PagedTensorMemoryAllocator

variable {c : PagedConfig}

def create (c : PagedConfig) : PagedTensorMemoryAllocator c where
  objects page := .init (c.pagedBuffer page) c.groups page
  freeBlocks := finRange c.numPages
  numActiveAllocations := 0
  totalAllocatedSize := 0

variable (a : PagedTensorMemoryAllocator c) (page : Fin c.numPages)

def modify (f : TensorMemoryObj → TensorMemoryObj) : PagedTensorMemoryAllocator c :=
  { a with objects := Function.update a.objects page (f (a.objects page)) }

def prepare (c : PagedConfig) (groups : TensorGroups) (obj : TensorMemoryObj) : TensorMemoryObj :=
  { obj with
    groups := groups
    refCount := 1
    rawData :=
      if groups.shapes ≠ c.groups.shapes then slice obj.rawData 0 groups.sizeBytes
      else obj.rawData }

def restore (c : PagedConfig) (obj : TensorMemoryObj) : TensorMemoryObj :=
  { obj with
    rawData :=
      if obj.groups.shapes ≠ c.groups.shapes then c.pagedBuffer obj.address else obj.rawData }

variable (groups : TensorGroups)

def popBlock : Option (Fin c.numPages × PagedTensorMemoryAllocator c) :=
  match a.freeBlocks with
  | [] => none
  | page :: rest => some (page, { a with freeBlocks := rest }.modify page (prepare c groups))

def pushBlock : PagedTensorMemoryAllocator c :=
  { a with freeBlocks := a.freeBlocks ++ [page] }.modify page (restore c)

def allocate : Option (Fin c.numPages) × PagedTensorMemoryAllocator c :=
  match a.popBlock groups with
  | none => (none, a)
  | some (page, a) =>
      (some page,
        { a with
          numActiveAllocations := a.numActiveAllocations + 1
          totalAllocatedSize := a.totalAllocatedSize + c.alignBytes })

def free : PagedTensorMemoryAllocator c :=
  if !(a.objects page).valid then a
  else
    { a.pushBlock page with
      totalAllocatedSize := a.totalAllocatedSize - c.alignBytes
      numActiveAllocations := a.numActiveAllocations - 1 }

def batchedFree (pages : List (Fin c.numPages)) (updateStats : Bool) :
    PagedTensorMemoryAllocator c :=
  let a := pages.foldl (fun a page => if !(a.objects page).valid then a else a.pushBlock page) a
  if updateStats then
    { a with
      totalAllocatedSize := a.totalAllocatedSize - c.alignBytes * pages.length
      numActiveAllocations := a.numActiveAllocations - pages.length }
  else a

def takeBlocks (groups : TensorGroups) : ℕ → PagedTensorMemoryAllocator c →
    List (Fin c.numPages) → Option (List (Fin c.numPages)) × PagedTensorMemoryAllocator c
  | 0, a, allocatedBlocks => (some allocatedBlocks, a)
  | n + 1, a, allocatedBlocks =>
      match a.popBlock groups with
      | none => (none, a.batchedFree allocatedBlocks false)
      | some (page, a) => takeBlocks groups n a (allocatedBlocks ++ [page])

def batchedAllocate (batchSize : ℤ) :
    Option (List (Fin c.numPages)) × PagedTensorMemoryAllocator c :=
  match takeBlocks groups batchSize.toNat a [] with
  | (none, a) => (none, a)
  | (some pages, a) =>
      (some pages,
        { a with
          numActiveAllocations := a.numActiveAllocations + batchSize
          totalAllocatedSize := (a.numActiveAllocations + batchSize) * c.alignBytes })

end PagedTensorMemoryAllocator

inductive PageOp (c : PagedConfig) where
  | allocate (groups : TensorGroups)
  | batchedAllocate (groups : TensorGroups) (batchSize : ℤ)
  | free (page : Fin c.numPages)
  | batchedFree (pages : List (Fin c.numPages))

namespace PagedTensorMemoryAllocator

variable {c : PagedConfig}

def exec (a : PagedTensorMemoryAllocator c) : PageOp c → PagedTensorMemoryAllocator c
  | .allocate groups => (a.allocate groups).2
  | .batchedAllocate groups batchSize => (a.batchedAllocate groups batchSize).2
  | .free page => a.free page
  | .batchedFree pages => a.batchedFree pages true

end PagedTensorMemoryAllocator

structure TensorMemoryObj.Reports (obj : TensorMemoryObj) (groups : TensorGroups) (start : ℕ) :
    Prop where
  size : obj.getSize = groups.sizeBytes
  tensor : ∀ i shape dtype, groups.shapes[i]? = some shape → groups.dtypes[i]? = some dtype →
    obj.getTensor i =
      .ok (some ⟨⟨start + offset groups.sizes i, numel shape * dtype.itemsize⟩, dtype, shape⟩)

structure TensorGroups.Agrees (groups : TensorGroups) (full : TensorGroups) (bytes : Region) :
    Prop where
  leading : groups.sizes <+: full.sizes
  total : groups.sizeBytes = full.sizeBytes
  held : groups.sizeBytes ≤ bytes.size
  placed : ∀ i dtype, groups.dtypes[i]? = some dtype →
    dtype.itemsize ∣ bytes.start + offset groups.sizes i

structure Made (c : PagedConfig) (page : ℕ) (obj : TensorMemoryObj) : Prop where
  sums : obj.groupPrefixSum = (c.groups.sizes.foldl addUp ([0], 0)).1
  valid : obj.valid = true
  address : obj.address = page
  start : obj.rawData.start = (c.pagedBuffer page).start

namespace PagedTensorMemoryAllocator

variable {c : PagedConfig} (a : PagedTensorMemoryAllocator c)

def ReportsAfter : PageOp c → Prop
  | .allocate groups =>
      ∀ page ∈ (a.allocate groups).1,
        ((a.allocate groups).2.objects page).Reports groups (c.pagedBuffer page).start
  | .batchedAllocate groups batchSize =>
      ∀ pages ∈ (a.batchedAllocate groups batchSize).1, ∀ page ∈ pages,
        ((a.batchedAllocate groups batchSize).2.objects page).Reports groups
          (c.pagedBuffer page).start
  | .free _ | .batchedFree _ => True

def RequestAgrees : PageOp c → Prop
  | .allocate groups =>
      ∀ page ∈ a.freeBlocks.head?, groups.Agrees c.groups (a.objects page).rawData
  | .batchedAllocate groups batchSize =>
      batchSize.toNat ≤ a.freeBlocks.length →
        ∀ page ∈ a.freeBlocks.take batchSize.toNat, groups.Agrees c.groups (a.objects page).rawData
  | .free _ | .batchedFree _ => True

def Fits : PageOp c → Prop
  | .allocate groups | .batchedAllocate groups _ => groups.sizeBytes ≤ c.alignBytes
  | .free _ | .batchedFree _ => True

def FreedOnce : PageOp c → Prop
  | .allocate _ | .batchedAllocate _ _ => True
  | .free page => page ∉ a.freeBlocks
  | .batchedFree pages => (a.freeBlocks ++ pages).Nodup

structure Whole (a : PagedTensorMemoryAllocator c) : Prop where
  nodup : a.freeBlocks.Nodup
  page : ∀ page : Fin c.numPages,
    page ∈ a.freeBlocks ∨ (a.objects page).groups.shapes = c.groups.shapes →
      (a.objects page).rawData = c.pagedBuffer page

def Sound : Prop :=
  ∀ page : Fin c.numPages, Made c page (a.objects page)

end PagedTensorMemoryAllocator

namespace TensorGroups

theorem length_sizes (groups : TensorGroups) : groups.sizes.length = groups.shapes.length := by
  rw [sizes, length_zipWith, ← groups.sameLength, min_self]

theorem getElem?_sizes {groups : TensorGroups} {i : ℕ} {shape : List ℕ} {dtype : Dtype}
    (hshape : groups.shapes[i]? = some shape) (hdtype : groups.dtypes[i]? = some dtype) :
    groups.sizes[i]? = some (numel shape * dtype.itemsize) := by
  rw [sizes, getElem?_zipWith, hshape, hdtype]

theorem getElem?_of_lt (groups : TensorGroups) {i : ℕ} (hi : i < groups.shapes.length) :
    ∃ shape dtype, groups.shapes[i]? = some shape ∧ groups.dtypes[i]? = some dtype := by
  have hi' : i < groups.dtypes.length := groups.sameLength ▸ hi
  exact ⟨_, _, getElem?_eq_getElem hi, getElem?_eq_getElem hi'⟩

end TensorGroups

theorem bind_eq_ok_iff {ε α β : Type} {x : Except ε α} {f : α → Except ε β} {b : β} :
    x >>= f = .ok b ↔ ∃ a, x = .ok a ∧ f a = .ok b := by
  cases x with
  | error e =>
    refine ⟨fun h => (nomatch h), ?_⟩
    rintro ⟨a, hx, _⟩
    exact nomatch hx
  | ok a =>
    refine ⟨fun h => ⟨a, rfl, h⟩, ?_⟩
    rintro ⟨a', hx, h⟩
    rwa [Except.ok.inj hx]

theorem item_eq_ok_iff {α : Type} {xs : List α} {i : ℕ} {x : α} :
    item xs i = .ok x ↔ xs[i]? = some x := by
  rw [item]
  cases xs[i]? <;> simp

variable {dtype : Dtype}

theorem viewDtype_eq_ok_iff {bytes place : Region} :
    viewDtype bytes dtype = .ok place ↔
      bytes = place ∧ dtype.itemsize ∣ place.size ∧ dtype.itemsize ∣ place.start := by
  rw [viewDtype]
  constructor
  · intro h
    split_ifs at h with hfits
    obtain rfl := Except.ok.inj h
    exact ⟨rfl, hfits⟩
  · rintro ⟨rfl, hfits⟩
    rw [if_pos hfits]

theorem viewShape_eq_ok_iff {bytes : Region} {shape : List ℕ} {view : TensorView} :
    viewShape bytes dtype shape = .ok view ↔
      bytes.size / dtype.itemsize = numel shape ∧ view = ⟨bytes, dtype, shape⟩ := by
  rw [viewShape]
  split_ifs with h
  · rw [and_iff_right h, Except.ok.injEq, eq_comm]
  · simp [h]

namespace TensorMemoryObj

variable {obj : TensorMemoryObj} {full groups : TensorGroups}

theorem getSize_eq (hsums : obj.groupPrefixSum = (full.sizes.foldl addUp ([0], 0)).1) :
    obj.getSize = full.sizeBytes := by
  rw [getSize, hsums, getLast?_foldl_addUp, Option.getD_some, TensorGroups.sizeBytes]

variable {i : ℕ} {shape : List ℕ}

theorem getTensor_iff (hvalid : obj.valid = true)
    (hsums : obj.groupPrefixSum = (full.sizes.foldl addUp ([0], 0)).1) {place : Region}
    (hshape : obj.groups.shapes[i]? = some shape) (hdtype : obj.groups.dtypes[i]? = some dtype)
    (hsize : place.size = numel shape * dtype.itemsize) :
    obj.getTensor i = .ok (some ⟨place, dtype, shape⟩) ↔
      i < full.sizes.length ∧
        slice obj.rawData (offset full.sizes i) (offset full.sizes (i + 1)) = place ∧
        dtype.itemsize ∣ place.start := by
  have hwhole : dtype.itemsize ∣ place.size := by
    rw [hsize]
    exact Nat.dvd_mul_left _ _
  have hcount : place.size / dtype.itemsize = numel shape := by
    rw [hsize, Nat.mul_div_cancel _ dtype.positive]
  have hsum : ∀ j n, item obj.groupPrefixSum j = .ok n ↔
      j ≤ full.sizes.length ∧ offset full.sizes j = n := by
    intro j n
    rw [item_eq_ok_iff, hsums, getElem?_foldl_addUp]
    split_ifs with hj <;> simp [hj]
  rw [getTensor, if_neg (by simp [hvalid])]
  simp only [bind_eq_ok_iff, hsum, item_eq_ok_iff, hshape, hdtype, viewDtype_eq_ok_iff,
    viewShape_eq_ok_iff, Except.ok.injEq, Option.some.injEq]
  constructor
  · rintro ⟨_, ⟨_, rfl⟩, _, ⟨hlt, rfl⟩, _, rfl, _, ⟨rfl, _, hstart⟩, _, rfl, _, ⟨_, rfl⟩, heq⟩
    obtain rfl : _ = place := congrArg TensorView.bytes heq
    exact ⟨hlt, rfl, hstart⟩
  · rintro ⟨hlt, hslice, hstart⟩
    exact ⟨_, ⟨hlt.le, rfl⟩, _, ⟨hlt, rfl⟩, _, rfl, _, ⟨hslice, hwhole, hstart⟩, _, rfl, _,
      ⟨hcount, rfl⟩, rfl⟩

theorem exists_getTensor_iff (hvalid : obj.valid = true)
    (hsums : obj.groupPrefixSum = (full.sizes.foldl addUp ([0], 0)).1)
    (hshape : obj.groups.shapes[i]? = some shape) (hdtype : obj.groups.dtypes[i]? = some dtype) :
    (∃ view, obj.getTensor i = .ok (some view)) ↔
      i < full.sizes.length ∧
        (slice obj.rawData (offset full.sizes i) (offset full.sizes (i + 1))).size =
          numel shape * dtype.itemsize ∧
        dtype.itemsize ∣
          (slice obj.rawData (offset full.sizes i) (offset full.sizes (i + 1))).start := by
  constructor
  · rintro ⟨view, hview⟩
    have hparts := hview
    rw [getTensor, if_neg (by simp [hvalid])] at hparts
    simp only [bind_eq_ok_iff, item_eq_ok_iff, hshape, hdtype, viewDtype_eq_ok_iff,
      viewShape_eq_ok_iff, Except.ok.injEq, Option.some.injEq] at hparts
    obtain ⟨_, _, _, _, _, rfl, bytes, ⟨_, hwhole, hstart⟩, _, rfl, _, ⟨hcount, rfl⟩, rfl⟩ :=
      hparts
    have hsize : bytes.size = numel shape * dtype.itemsize := by
      rw [← hcount, Nat.div_mul_cancel hwhole]
    obtain ⟨hlt, hslice, _⟩ := (getTensor_iff hvalid hsums hshape hdtype hsize).mp hview
    rw [hslice]
    exact ⟨hlt, hsize, hstart⟩
  · rintro ⟨hlt, hsize, hstart⟩
    exact ⟨_, (getTensor_iff hvalid hsums hshape hdtype hsize).mpr ⟨hlt, rfl, hstart⟩⟩

theorem Reports.shown (h : obj.Reports obj.groups obj.rawData.start) (hvalid : obj.valid = true)
    (hsums : obj.groupPrefixSum = (full.sizes.foldl addUp ([0], 0)).1)
    (hi : i < obj.groups.sizes.length) :
    i < full.sizes.length ∧
      slice obj.rawData (offset full.sizes i) (offset full.sizes (i + 1)) =
        ⟨obj.rawData.start + offset obj.groups.sizes i,
          offset obj.groups.sizes (i + 1) - offset obj.groups.sizes i⟩ := by
  rw [TensorGroups.length_sizes] at hi
  obtain ⟨shape, dtype, hshape, hdtype⟩ := obj.groups.getElem?_of_lt hi
  have hsize := offset_succ (TensorGroups.getElem?_sizes hshape hdtype)
  have hview := h.tensor i shape dtype hshape hdtype
  rw [getTensor_iff hvalid hsums hshape hdtype rfl] at hview
  rw [hsize, Nat.add_sub_cancel_left]
  exact ⟨hview.1, hview.2.1⟩

theorem Reports.agrees (h : obj.Reports obj.groups obj.rawData.start) (hvalid : obj.valid = true)
    (hsums : obj.groupPrefixSum = (full.sizes.foldl addUp ([0], 0)).1) :
    obj.groups.Agrees full obj.rawData := by
  have htotal : obj.groups.sizeBytes = full.sizeBytes := h.size.symm.trans (getSize_eq hsums)
  have hheld : obj.groups.sizeBytes ≤ obj.rawData.size := by
    obtain ⟨n, hn⟩ : ∃ n, obj.groups.sizes.length = n + 1 := by
      refine ⟨obj.groups.sizes.length - 1, ?_⟩
      have hpos := length_pos_iff.mpr obj.groups.nonempty
      rw [TensorGroups.length_sizes]
      omega
    have hlast := (h.shown hvalid hsums (i := n) (by omega)).2
    have hend : offset obj.groups.sizes (n + 1) = obj.groups.sizeBytes := by
      rw [← hn, offset_length, TensorGroups.sizeBytes]
    have hstart := congrArg Region.start hlast
    have hsize := congrArg Region.size hlast
    simp only [slice] at hstart hsize
    have hle := offset_le_succ obj.groups.sizes n
    omega
  have hfit : ∀ i, offset full.sizes i ≤ obj.rawData.size := by
    intro i
    have hle := offset_le_sum full.sizes i
    rw [← TensorGroups.sizeBytes, ← htotal] at hle
    exact hle.trans hheld
  refine ⟨isPrefix_of_offset fun i hi => ?_, htotal, hheld, fun i dtype hdtype => ?_⟩
  · cases i with
    | zero => exact ⟨Nat.zero_le _, rfl⟩
    | succ i =>
      obtain ⟨hlt, hslice⟩ := h.shown hvalid hsums hi
      have hstart := congrArg Region.start hslice
      have hsize := congrArg Region.size hslice
      simp only [slice, min_eq_left (hfit i), min_eq_left (hfit (i + 1))] at hstart hsize
      have hle := offset_le_succ full.sizes i
      have hle' := offset_le_succ obj.groups.sizes i
      exact ⟨hlt, by omega⟩
  · have hi : i < obj.groups.shapes.length := by
      rw [obj.groups.sameLength]
      exact (List.getElem?_eq_some_iff.mp hdtype).1
    have hshape := getElem?_eq_getElem hi
    have hview := h.tensor i _ dtype hshape hdtype
    rw [getTensor_iff hvalid hsums hshape hdtype rfl] at hview
    exact hview.2.2

theorem reports_of_agrees (h : obj.groups.Agrees full obj.rawData) (hvalid : obj.valid = true)
    (hsums : obj.groupPrefixSum = (full.sizes.foldl addUp ([0], 0)).1) :
    obj.Reports obj.groups obj.rawData.start := by
  refine ⟨(getSize_eq hsums).trans h.total.symm, fun i shape dtype hshape hdtype => ?_⟩
  have hi : i < obj.groups.sizes.length := by
    rw [TensorGroups.length_sizes]
    exact (List.getElem?_eq_some_iff.mp hshape).1
  have hsize := offset_succ (TensorGroups.getElem?_sizes hshape hdtype)
  have hfit : ∀ j, offset obj.groups.sizes j ≤ obj.rawData.size := fun j =>
    (offset_le_sum _ j).trans h.held
  rw [getTensor_iff hvalid hsums hshape hdtype rfl]
  refine ⟨hi.trans_le h.leading.length_le, ?_, h.placed i dtype hdtype⟩
  rw [offset_of_isPrefix h.leading hi.le, offset_of_isPrefix h.leading hi, slice,
    min_eq_left (hfit i), min_eq_left (hfit (i + 1)), hsize, Nat.add_sub_cancel_left]

end TensorMemoryObj

variable {c : PagedConfig}

theorem made_init (c : PagedConfig) (page : ℕ) :
    Made c page (.init (c.pagedBuffer page) c.groups page) := ⟨rfl, rfl, rfl, rfl⟩

theorem Made.reports_iff {page : ℕ} {obj : TensorMemoryObj} (h : Made c page obj) :
    obj.Reports obj.groups (c.pagedBuffer page).start ↔ obj.groups.Agrees c.groups obj.rawData := by
  rw [← h.start]
  constructor
  · intro hreports
    exact hreports.agrees h.valid h.sums
  · intro hagrees
    exact TensorMemoryObj.reports_of_agrees hagrees h.valid h.sums

open PagedTensorMemoryAllocator

theorem Made.prepare {page : ℕ} {obj : TensorMemoryObj} (h : Made c page obj) (groups : TensorGroups) :
    Made c page (prepare c groups obj) := by
  refine ⟨h.sums, h.valid, h.address, ?_⟩
  rw [← h.start, PagedTensorMemoryAllocator.prepare]
  split_ifs <;> simp [slice]

theorem Made.restore {page : ℕ} {obj : TensorMemoryObj} (h : Made c page obj) :
    Made c page (restore c obj) := by
  refine ⟨h.sums, h.valid, h.address, ?_⟩
  rw [PagedTensorMemoryAllocator.restore]
  split_ifs
  · change (c.pagedBuffer obj.address).start = _
    rw [h.address]
  · exact h.start

end LMCache.PageLayout
