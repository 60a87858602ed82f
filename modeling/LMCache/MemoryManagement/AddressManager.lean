import Mathlib.Data.Nat.Bitwise
import LMCache.Foundations.Region

namespace LMCache

inductive RuntimeError where
  | noMemory (message : String)
deriving DecidableEq, Repr

abbrev FreeBlock := Region

def FreeBlock.canBeCoalesced (self succ : FreeBlock) : Bool :=
  self.start + self.size == succ.start

namespace SortedList

def add (block : FreeBlock) : List FreeBlock → List FreeBlock
  | [] => [block]
  | b :: bs => if b.start ≤ block.start then b :: add block bs else block :: b :: bs

def bisectLeft (block : FreeBlock) (bs : List FreeBlock) : ℕ :=
  (bs.takeWhile (fun b => decide (b.start < block.start))).length

end SortedList

structure AddressManager where
  size : ℕ
  align : ℕ
  explicitList : List FreeBlock
  totalAllocatedSize : ℤ
deriving DecidableEq, Repr

namespace AddressManager

def init (size alignBytes : ℕ) : AddressManager where
  size := size
  align := alignBytes
  explicitList := SortedList.add ⟨0, size⟩ []
  totalAllocatedSize := 0

variable (m : AddressManager)

def computeAlignedSize (rawSize : ℕ) : ℕ :=
  Nat.ldiff (rawSize + m.align - 1) (m.align - 1)

def canMergeWithPrev (curr prev : FreeBlock) : Bool := FreeBlock.canBeCoalesced prev curr

def canMergeWithSucc (curr succ : FreeBlock) : Bool := FreeBlock.canBeCoalesced curr succ

def coalesce (bs : List FreeBlock) (curr : FreeBlock) (prev succ : Option FreeBlock) :
    Bool × List FreeBlock :=
  match prev.filter (canMergeWithPrev curr), succ.filter (canMergeWithSucc curr) with
  | some p, some s =>
      (true, (bs.replace p ⟨p.start, p.size + (curr.size + s.size)⟩).erase s)
  | some p, none => (true, bs.replace p ⟨p.start, p.size + curr.size⟩)
  | none, some s =>
      (true, SortedList.add ⟨s.start - curr.size, s.size + curr.size⟩ (bs.erase s))
  | none, none => (false, bs)

def insertFree (bs : List FreeBlock) (curr : FreeBlock) (prev succ : Option FreeBlock) :
    List FreeBlock :=
  let (coalesced, bs') := coalesce bs curr prev succ
  if coalesced then bs' else SortedList.add curr bs'

def allocate (m : AddressManager) (size : ℕ) : Except RuntimeError (ℕ × ℕ) × AddressManager :=
  let alignedSize := m.computeAlignedSize size
  match m.explicitList.find? (fun block => decide (alignedSize ≤ block.size)) with
  | none => (.error (.noMemory
      s!"Failed to allocate memory block of size {size} because no memory is available"), m)
  | some block =>
      let bs := m.explicitList.erase block
      let bs := if alignedSize < block.size then
        SortedList.add ⟨block.start + alignedSize, block.size - alignedSize⟩ bs else bs
      (.ok (block.start, alignedSize),
        { m with explicitList := bs, totalAllocatedSize := m.totalAllocatedSize + alignedSize })

structure Carving where
  remaining : ℤ
  allocateResult : List (ℕ × ℕ)
  blocksToRemove : List FreeBlock
  blocksToAdd : List FreeBlock

def carve (alignedSize : ℕ) : List FreeBlock → Carving → Carving
  | [], c => c
  | block :: rest, c =>
      if c.remaining ≤ 0 then c
      else if block.size < alignedSize then carve alignedSize rest c
      else
        let numFromBlock := (min c.remaining ((block.size / alignedSize : ℕ) : ℤ)).toNat
        let used := numFromBlock * alignedSize
        carve alignedSize rest
          { remaining := c.remaining - numFromBlock
            allocateResult := c.allocateResult ++
              (List.range numFromBlock).map (fun i => (block.start + i * alignedSize, alignedSize))
            blocksToRemove := c.blocksToRemove ++ [block]
            blocksToAdd := c.blocksToAdd ++
              if used < block.size then [⟨block.start + used, block.size - used⟩] else [] }

def batchedAllocate (size : ℕ) (batchSize : ℤ) :
    Except RuntimeError (List (ℕ × ℕ)) × AddressManager :=
  let alignedSize := m.computeAlignedSize size
  let c := carve alignedSize m.explicitList ⟨batchSize, [], [], []⟩
  if 0 < c.remaining then
    (.error (.noMemory s!"Failed to batched allocate {batchSize} memory blocks of size {size} because no enough memory is available"), m)
  else if (c.allocateResult.length : ℤ) ≠ batchSize then
    (.error (.noMemory s!"Failed to batched allocate {batchSize} memory blocks of size {size} because the length of allocate_result {c.allocateResult.length} is not equal to batch_size"), m)
  else
    let bs := c.blocksToRemove.foldl List.erase m.explicitList
    let bs := c.blocksToAdd.foldl (fun bs block => SortedList.add block bs) bs
    (.ok c.allocateResult,
      { m with
        explicitList := bs
        totalAllocatedSize := m.totalAllocatedSize + alignedSize * batchSize })

def free (address size : ℕ) : AddressManager :=
  let newFreeBlock : FreeBlock := ⟨address, size⟩
  let index := SortedList.bisectLeft newFreeBlock m.explicitList
  let prevBlock := if 0 < index then m.explicitList[index - 1]? else none
  let succBlock := m.explicitList[index]?
  { m with
    explicitList := insertFree m.explicitList newFreeBlock prevBlock succBlock
    totalAllocatedSize := m.totalAllocatedSize - size }

def sbrk (size : ℕ) : AddressManager :=
  let size := m.computeAlignedSize size
  { m with
    explicitList := insertFree m.explicitList ⟨m.size, size⟩ m.explicitList.getLast? none
    size := m.size + size }

def getHeapSize : ℕ := m.size

def checkConsistency : Bool :=
  if (m.explicitList.dropLast.zip m.explicitList.tail).any (fun p => FreeBlock.canBeCoalesced p.1 p.2)
  then false
  else ((m.explicitList.map Region.size).sum : ℤ) + m.totalAllocatedSize == m.size

end AddressManager

end LMCache
