import Mathlib.Data.Int.Notation
import LMCache.Foundations.Dict

namespace LMCache

structure MemoryObjMetadata (Λ : Type) where
  address : ℕ
  shapes : Λ
  refCount : ℤ
  pinCount : ℤ

structure TensorMemoryObj (Λ : Type) where
  metadata : MemoryObjMetadata Λ
  rawSize : ℕ

structure PagedBuffer (Λ : Type) where
  shapes : Λ
  sizeBytes : Λ → ℕ
  bufferSize : ℕ
  aligned : bufferSize % sizeBytes shapes = 0

namespace PagedBuffer

variable {Λ : Type}

def alignBytes (b : PagedBuffer Λ) : ℕ := b.sizeBytes b.shapes

def numPages (b : PagedBuffer Λ) : ℕ := b.bufferSize / b.alignBytes

end PagedBuffer

-- a block is the object of its page; outstanding lists the blocks handed out and not taken back
structure PagedTensorMemoryAllocator (Λ : Type) where
  buffer : PagedBuffer Λ
  objects : ℕ → TensorMemoryObj Λ
  freeBlocks : List ℕ
  numActiveAllocations : ℤ
  totalAllocatedSize : ℤ
  outstanding : List ℕ

namespace PagedTensorMemoryAllocator

variable {Λ : Type} [DecidableEq Λ] (buffer : PagedBuffer Λ)

def create : PagedTensorMemoryAllocator Λ where
  buffer := buffer
  objects idx := ⟨⟨idx, buffer.shapes, 1, 0⟩, buffer.alignBytes⟩
  freeBlocks := List.range buffer.numPages
  numActiveAllocations := 0
  totalAllocatedSize := 0
  outstanding := []

def refCount (a : PagedTensorMemoryAllocator Λ) (page : ℕ) : ℤ := (a.objects page).metadata.refCount

def pinCount (a : PagedTensorMemoryAllocator Λ) (page : ℕ) : ℤ := (a.objects page).metadata.pinCount

variable (a : PagedTensorMemoryAllocator Λ) (page : ℕ)

def modify (f : TensorMemoryObj Λ → TensorMemoryObj Λ) : PagedTensorMemoryAllocator Λ :=
  { a with objects := fun page' => if page' = page then f (a.objects page) else a.objects page' }

def setRefCount (count : ℤ) : PagedTensorMemoryAllocator Λ :=
  a.modify page (fun obj => { obj with metadata := { obj.metadata with refCount := count } })

def setPinCount (count : ℤ) : PagedTensorMemoryAllocator Λ :=
  a.modify page (fun obj => { obj with metadata := { obj.metadata with pinCount := count } })

variable (shapes : Λ)

def prepare (obj : TensorMemoryObj Λ) : TensorMemoryObj Λ where
  metadata := { obj.metadata with shapes := shapes, refCount := 1 }
  rawSize := if shapes = buffer.shapes then obj.rawSize else min obj.rawSize (buffer.sizeBytes shapes)

def restore (obj : TensorMemoryObj Λ) : TensorMemoryObj Λ :=
  if obj.metadata.shapes = buffer.shapes then obj else { obj with rawSize := buffer.alignBytes }

def popBlock : Option (ℕ × PagedTensorMemoryAllocator Λ) :=
  match a.freeBlocks with
  | [] => none
  | page :: rest => some (page, { a with freeBlocks := rest }.modify page (prepare a.buffer shapes))

def pushBlock : PagedTensorMemoryAllocator Λ :=
  { a with freeBlocks := a.freeBlocks ++ [page] }.modify page (restore a.buffer)

def allocate : Option ℕ × PagedTensorMemoryAllocator Λ :=
  match a.popBlock shapes with
  | none => (none, a)
  | some (page, a) =>
      (some page,
        { a with
          numActiveAllocations := a.numActiveAllocations + 1
          totalAllocatedSize := a.totalAllocatedSize + a.buffer.alignBytes
          outstanding := a.outstanding ++ [page] })

def takeBlocks (shapes : Λ) : ℕ → PagedTensorMemoryAllocator Λ → List ℕ →
    Option (List ℕ) × PagedTensorMemoryAllocator Λ
  | 0, a, allocatedBlocks => (some allocatedBlocks, a)
  | n + 1, a, allocatedBlocks =>
      match a.popBlock shapes with
      | none => (none, allocatedBlocks.foldl pushBlock a)
      | some (page, a) => takeBlocks shapes n a (allocatedBlocks ++ [page])

def batchedAllocate (batchSize : ℕ) : Option (List ℕ) × PagedTensorMemoryAllocator Λ :=
  match takeBlocks shapes batchSize a [] with
  | (none, a) => (none, a)
  | (some pages, a) =>
      (some pages,
        { a with
          numActiveAllocations := a.numActiveAllocations + batchSize
          totalAllocatedSize := (a.numActiveAllocations + batchSize) * a.buffer.alignBytes
          outstanding := a.outstanding ++ pages })

def free : PagedTensorMemoryAllocator Λ :=
  { a.pushBlock page with
    totalAllocatedSize := a.totalAllocatedSize - a.buffer.alignBytes
    numActiveAllocations := a.numActiveAllocations - 1
    outstanding := a.outstanding.erase page }

def refCountUp : PagedTensorMemoryAllocator Λ :=
  a.setRefCount page (a.refCount page + 1)

def refCountDown : PagedTensorMemoryAllocator Λ :=
  let count := if a.refCount page - 1 < 0 then 0 else a.refCount page - 1
  let a := a.setRefCount page count
  if count = 0 ∧ a.pinCount page = 0 then a.free page else a

def unpin : PagedTensorMemoryAllocator Λ :=
  let count := a.pinCount page - 1
  let a := a.setPinCount page count
  let a := if count ≤ 0 ∧ a.refCount page ≤ 0 then a.free page else a
  if count < 0 then a.setPinCount page 0 else a

end PagedTensorMemoryAllocator

structure PinMonitor where
  pinTimeout : ℕ
  pinnedObjects : Dict ℕ ℕ

namespace PinMonitor

def onPin (monitor : PinMonitor) (page now : ℕ) : PinMonitor :=
  { monitor with pinnedObjects := monitor.pinnedObjects.set page now }

def onUnpin (monitor : PinMonitor) (page : ℕ) : PinMonitor :=
  { monitor with pinnedObjects := monitor.pinnedObjects.erase page }

def timeoutObjects {Λ : Type} (monitor : PinMonitor) (a : PagedTensorMemoryAllocator Λ) (now : ℕ) :
    List ℕ :=
  (monitor.pinnedObjects.items.filter (fun item =>
    decide (0 < a.pinCount item.1) && decide (monitor.pinTimeout < now - item.2))).map Prod.fst

end PinMonitor

-- refsHeld and pinsHeld list what the holders took and have not released; timedOut is what the
-- monitor's check has still to go through
structure PagedRun (Λ : Type) where
  allocator : PagedTensorMemoryAllocator Λ
  monitor : PinMonitor
  now : ℕ
  timedOut : List ℕ
  refsHeld : List ℕ
  pinsHeld : List ℕ

inductive PagedEvent (Λ : Type) where
  | allocate (shapes : Λ)
  | batchedAllocate (shapes : Λ) (batchSize : ℕ)
  | refCountUp (page : ℕ)
  | refCountDown (page : ℕ)
  | pin (page : ℕ)
  | unpin (page : ℕ)
  | advance (elapsed : ℕ)
  | checkTimeouts
  | forceUnpin

namespace PagedRun

variable {Λ : Type} [DecidableEq Λ]

def start (buffer : PagedBuffer Λ) (pinTimeout now : ℕ) : PagedRun Λ where
  allocator := .create buffer
  monitor := ⟨pinTimeout, .empty⟩
  now := now
  timedOut := []
  refsHeld := []
  pinsHeld := []

def pin (s : PagedRun Λ) (page : ℕ) : PagedRun Λ :=
  { s with
    allocator := s.allocator.setPinCount page (s.allocator.pinCount page + 1)
    monitor := s.monitor.onPin page s.now }

def unpin (s : PagedRun Λ) (page : ℕ) : PagedRun Λ :=
  { s with
    allocator := s.allocator.unpin page
    monitor := if s.allocator.pinCount page - 1 = 0 then s.monitor.onUnpin page else s.monitor }

def forceUnpin (s : PagedRun Λ) : PagedRun Λ :=
  match s.timedOut with
  | [] => s
  | page :: rest => if 0 < s.allocator.pinCount page then s.unpin page else { s with timedOut := rest }

def exec (s : PagedRun Λ) : PagedEvent Λ → PagedRun Λ
  | .allocate shapes =>
      let (page, allocator) := s.allocator.allocate shapes
      { s with allocator := allocator, refsHeld := s.refsHeld ++ page.toList }
  | .batchedAllocate shapes batchSize =>
      let (pages, allocator) := s.allocator.batchedAllocate shapes batchSize
      { s with allocator := allocator, refsHeld := s.refsHeld ++ pages.getD [] }
  | .refCountUp page =>
      { s with allocator := s.allocator.refCountUp page, refsHeld := s.refsHeld ++ [page] }
  | .refCountDown page =>
      { s with allocator := s.allocator.refCountDown page, refsHeld := s.refsHeld.erase page }
  | .pin page => { s.pin page with pinsHeld := s.pinsHeld ++ [page] }
  | .unpin page => { s.unpin page with pinsHeld := s.pinsHeld.erase page }
  | .advance elapsed => { s with now := s.now + elapsed }
  | .checkTimeouts =>
      if s.timedOut.isEmpty then
        { s with timedOut := s.monitor.timeoutObjects s.allocator s.now }
      else s
  | .forceUnpin => s.forceUnpin

end PagedRun

end LMCache
