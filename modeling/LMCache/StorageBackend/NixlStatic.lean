import Mathlib.Data.Finset.Basic
import Mathlib.Data.List.Range
import LMCache.Foundations.Cells
import LMCache.Foundations.Dict
import LMCache.Foundations.Execution

namespace LMCache

open Function

structure NixlKeyMetadata (S : Type) where
  layout : S
  index : ℕ
  pinCount : ℤ

namespace NixlKeyMetadata

variable {S : Type} (m : NixlKeyMetadata S)

def pin : NixlKeyMetadata S := { m with pinCount := m.pinCount + 1 }

def unpin : NixlKeyMetadata S := { m with pinCount := m.pinCount - 1 }

def isPinned : Bool := decide (0 < m.pinCount)

def canEvict : Bool := !m.isPinned

end NixlKeyMetadata

inductive NixlTransfer where
  | done
  | raised (written : ℕ)

def NixlTransfer.moved {V : Type} (outcome : NixlTransfer) (cells : List (ℕ × V)) : List (ℕ × V) :=
  match outcome with
  | .done => cells
  | .raised written => cells.take written

-- the head of indices is the end of the pool's list; layouts, memory and refCounts are the
-- metadata and the bytes of the memory objects, one for each page of the buffer
structure NixlStatic (K S B : Type) where
  size : ℕ
  indices : List ℕ
  keyDict : Dict K (NixlKeyMetadata S)
  progressSet : Finset K
  storage : ℕ → B
  layouts : ℕ → S
  memory : ℕ → B
  refCounts : ℕ → ℕ
  freeBlocks : List ℕ

namespace NixlStatic

variable {K S B : Type} [DecidableEq K] (b : NixlStatic K S B)

def push (index : ℕ) : NixlStatic K S B :=
  if b.indices.length < b.size then { b with indices := index :: b.indices } else b

def addKeyToDict (key : K) (layout : S) (index : ℕ) : Option (NixlStatic K S B) :=
  if b.keyDict.contains key then none
  else some { b with keyDict := b.keyDict.set key ⟨layout, index, 0⟩ }

def takeSlots (b : NixlStatic K S B) : List (K × ℕ) → NixlStatic K S B × Option (List ℕ)
  | [] => (b, some [])
  | (key, address) :: items =>
      match b.indices with
      | [] => (b, none)
      | index :: rest =>
          match addKeyToDict { b with indices := rest } key (b.layouts address) index with
          | none => ({ b with indices := rest }, none)
          | some b' => ((takeSlots b' items).1, (takeSlots b' items).2.map (index :: ·))

def memToStorage (items : List (K × ℕ)) (outcome : NixlTransfer) : NixlStatic K S B :=
  match b.takeSlots items with
  | (taken, none) => taken
  | (taken, some slots) =>
      let pages := slots.zip (items.map (fun item => taken.memory item.2))
      let moved := { taken with storage := Cells.write taken.storage (outcome.moved pages) }
      match outcome with
      | .done => { moved with progressSet := moved.progressSet \ (items.map Prod.fst).toFinset }
      | .raised _ => moved

def allocate (layout : S) : Option (ℕ × NixlStatic K S B) :=
  match b.freeBlocks with
  | [] => none
  | address :: rest =>
      some (address, { b with
        freeBlocks := rest
        layouts := update b.layouts address layout
        refCounts := update b.refCounts address 1 })

def refCountDown (address : ℕ) : NixlStatic K S B :=
  { b with
    refCounts := update b.refCounts address (b.refCounts address - 1)
    freeBlocks := if b.refCounts address - 1 = 0 then b.freeBlocks ++ [address] else b.freeBlocks }

def refCountUp (address : ℕ) : NixlStatic K S B :=
  { b with refCounts := update b.refCounts address (b.refCounts address + 1) }

def allocateAll (b : NixlStatic K S B) : List S → List ℕ × NixlStatic K S B
  | [] => ([], b)
  | layout :: layouts =>
      match b.allocate layout with
      | none => ([], b)
      | some (address, b') => (address :: (allocateAll b' layouts).1, (allocateAll b' layouts).2)

variable (keys : List K)

def collectMetadata : List (K × NixlKeyMetadata S) :=
  keys.filterMap (fun key => (b.keyDict.get? key).map (fun m => (key, m)))

def storageToMem (outcome : NixlTransfer) : NixlStatic K S B × Except (List ℕ) (List (K × ℕ)) :=
  let found := b.collectMetadata keys
  let (addresses, b') := b.allocateAll (found.map (fun entry => entry.2.layout))
  if addresses.length < found.length then (b', .error addresses)
  else if addresses = [] then (b', .ok [])
  else
    let pages := addresses.zip (found.map (fun entry => b'.storage entry.2.index))
    let moved := { b' with memory := Cells.write b'.memory (outcome.moved pages) }
    match outcome with
    | .done => (moved, .ok ((found.map Prod.fst).zip addresses))
    | .raised _ => (moved, .error addresses)

def batchedGetNonBlocking (outcome : NixlTransfer) :
    NixlStatic K S B × Except (List ℕ) (List (K × ℕ)) :=
  match b.storageToMem keys outcome with
  | (b', .error addresses) => (b', .error addresses)
  | (b', .ok objs) =>
      if objs.length < keys.length then (b', .error (objs.map Prod.snd)) else (b', .ok objs)

def remove (key : K) : NixlStatic K S B :=
  match b.keyDict.get? key with
  | none => b
  | some metadata => push { b with keyDict := b.keyDict.erase key } metadata.index

def batchedRemove : NixlStatic K S B := keys.foldl remove b

def setMetadata (key : K) (f : NixlKeyMetadata S → NixlKeyMetadata S) : NixlStatic K S B :=
  match b.keyDict.get? key with
  | none => b
  | some metadata => { b with keyDict := b.keyDict.set key (f metadata) }

def pin (b : NixlStatic K S B) (key : K) : NixlStatic K S B := b.setMetadata key NixlKeyMetadata.pin

def unpin (b : NixlStatic K S B) (key : K) : NixlStatic K S B :=
  b.setMetadata key NixlKeyMetadata.unpin

def Candidates (numCandidates : ℕ) (evictKeys : List K) : Prop :=
  evictKeys.Nodup ∧ evictKeys.length ≤ numCandidates ∧
    ∀ key ∈ evictKeys, ((b.keyDict.get? key).map NixlKeyMetadata.canEvict) = some true

instance (b : NixlStatic K S B) (numCandidates : ℕ) (evictKeys : List K) :
    Decidable (b.Candidates numCandidates evictKeys) :=
  inferInstanceAs (Decidable (_ ∧ _ ∧ _))

def batchedSubmitPutTask (keys evictKeys : List K) : Option (NixlStatic K S B) :=
  let start (b : NixlStatic K S B) := { b with progressSet := b.progressSet ∪ keys.toFinset }
  if b.indices.length < keys.length then
    if evictKeys = [] then none else some (start (b.batchedRemove evictKeys))
  else some (start b)

end NixlStatic

structure NixlStaticPut (K S B : Type) where
  key : K
  address : ℕ
  layout : S
  bytes : B

-- the backend, the coroutines that wait for the loop, and what has been put, returned and failed
structure NixlStaticRun (K S B : Type) where
  backend : NixlStatic K S B
  submitted : List (List (NixlStaticPut K S B))
  puts : List (K × S × B)
  returned : List (K × S × B)
  failedPuts : Finset K
  failedReads : List ℕ

inductive NixlStaticEvent (K S B : Type) where
  | allocate (layout : S) (bytes : B)
  | refCountUp (address : ℕ)
  | refCountDown (address : ℕ)
  | batchedSubmitPutTask (items : List (K × ℕ)) (evictKeys : List K)
  | memToStorage (task : ℕ) (outcome : NixlTransfer)
  | storageToMem (keys : List K) (outcome : NixlTransfer)
  | batchedGetNonBlocking (keys : List K) (outcome : NixlTransfer)
  | remove (key : K)
  | pin (key : K)
  | unpin (key : K)

namespace NixlStaticRun

variable {K S B : Type} [DecidableEq K]

def start (size numBlocks : ℕ) (storage : ℕ → B) (layouts : ℕ → S) (memory : ℕ → B) :
    NixlStaticRun K S B where
  backend :=
    { size
      indices := List.range size
      keyDict := .empty
      progressSet := ∅
      storage
      layouts
      memory
      refCounts := fun _ => 0
      freeBlocks := List.range numBlocks }
  submitted := []
  puts := []
  returned := []
  failedPuts := ∅
  failedReads := []

variable (run : NixlStaticRun K S B)

def submit (items : List (K × ℕ)) : List (NixlStaticPut K S B) :=
  items.map (fun item =>
    ⟨item.1, item.2, run.backend.layouts item.2, run.backend.memory item.2⟩)

def finishRead :
    NixlStatic K S B × Except (List ℕ) (List (K × ℕ)) → NixlStaticRun K S B
  | (backend, .error addresses) =>
      { run with backend := backend, failedReads := run.failedReads ++ addresses }
  | (backend, .ok objs) =>
      { run with
        backend := backend
        returned := run.returned ++
          objs.map (fun obj => (obj.1, backend.layouts obj.2, backend.memory obj.2))
        failedReads := run.failedReads.filter (fun address => address ∉ objs.map Prod.snd) }

def raisedKeys (items : List (K × ℕ)) : NixlTransfer → Finset K
  | .done => ∅
  | .raised _ =>
      if (run.backend.takeSlots items).2.isSome then (items.map Prod.fst).toFinset else ∅

def exec : NixlStaticEvent K S B → NixlStaticRun K S B
  | .allocate layout bytes =>
      match run.backend.allocate layout with
      | none => run
      | some (address, backend) =>
          { run with
            backend := { backend with memory := update backend.memory address bytes }
            failedReads := run.failedReads.filter (fun failed => failed ≠ address) }
  | .refCountUp address => { run with backend := run.backend.refCountUp address }
  | .refCountDown address => { run with backend := run.backend.refCountDown address }
  | .batchedSubmitPutTask items evictKeys =>
      match run.backend.batchedSubmitPutTask (items.map Prod.fst) evictKeys with
      | none => run
      | some backend =>
          { run with
            backend := backend
            submitted := run.submitted ++ [run.submit items]
            puts := run.puts ++ (run.submit items).map (fun put => (put.key, put.layout, put.bytes))
            failedPuts := run.failedPuts \ (items.map Prod.fst).toFinset }
  | .memToStorage task outcome =>
      match run.submitted[task]? with
      | none => run
      | some puts =>
          let items := puts.map (fun put => (put.key, put.address))
          { run with
            backend := run.backend.memToStorage items outcome
            submitted := run.submitted.eraseIdx task
            failedPuts := run.failedPuts ∪ run.raisedKeys items outcome }
  | .storageToMem keys outcome => run.finishRead (run.backend.storageToMem keys outcome)
  | .batchedGetNonBlocking keys outcome =>
      run.finishRead (run.backend.batchedGetNonBlocking keys outcome)
  | .remove key => { run with backend := run.backend.remove key }
  | .pin key => { run with backend := run.backend.pin key }
  | .unpin key => { run with backend := run.backend.unpin key }

def Enabled : NixlStaticEvent K S B → Prop
  | .refCountUp address | .refCountDown address => 0 < run.backend.refCounts address
  | .batchedSubmitPutTask items evictKeys =>
      (∀ item ∈ items, 0 < run.backend.refCounts item.2) ∧
        run.backend.Candidates (items.length - run.backend.indices.length) evictKeys
  | _ => True

instance (run : NixlStaticRun K S B) : ∀ event, Decidable (run.Enabled event)
  | .refCountUp address | .refCountDown address =>
      inferInstanceAs (Decidable (0 < run.backend.refCounts address))
  | .batchedSubmitPutTask _ _ => inferInstanceAs (Decidable (_ ∧ _))
  | .allocate _ _ | .memToStorage _ _ | .storageToMem _ _ | .batchedGetNonBlocking _ _
  | .remove _ | .pin _ | .unpin _ => .isTrue trivial

end NixlStaticRun

end LMCache
