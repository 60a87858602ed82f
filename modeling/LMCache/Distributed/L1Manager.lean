import Mathlib.Data.Int.Notation
import LMCache.Foundations.Dict
import LMCache.StorageOps.TTLLock

namespace LMCache

inductive L1Error where
  | success
  | keyNotExist
  | keyNotReadable
  | keyNotWritable
  | keyInWrongState
  | keyIsLocked
  | outOfMemory
deriving DecidableEq, Repr

abbrev MemoryObj := ℕ

structure L1ObjectState where
  memoryObj : MemoryObj
  writeLock : TTLLock
  readLock : TTLLock
  isTemporary : Bool
deriving DecidableEq, Repr

namespace L1ObjectState

def availableForRead (now : ℕ) (e : L1ObjectState) : Bool := !e.writeLock.isLocked now

def availableForWrite (now : ℕ) (e : L1ObjectState) : Bool :=
  !e.writeLock.isLocked now && !e.readLock.isLocked now && !e.isTemporary

end L1ObjectState

abbrev L1OperationResult := L1Error × Option MemoryObj

def maxReadLockCount : ℕ := 128

def validateExtraCount (extraCount : ℤ) : ℕ :=
  let upper := maxReadLockCount - 1
  if extraCount < 0 then 0
  else if (upper : ℤ) < extraCount then upper
  else extraCount.toNat

structure L1MemoryManager where
  created : ℕ
  freed : List MemoryObj
deriving DecidableEq, Repr

namespace L1MemoryManager

def allocate (mm : L1MemoryManager) (granted : Bool) (count : ℕ) :
    (L1Error × List MemoryObj) × L1MemoryManager :=
  if granted then
    ((.success, List.range' mm.created count), { mm with created := mm.created + count })
  else ((.outOfMemory, []), mm)

def free (mm : L1MemoryManager) (memObjs : List MemoryObj) : L1MemoryManager :=
  { mm with freed := mm.freed ++ memObjs }

end L1MemoryManager

inductive L1Notification (K : Type) where
  | keysReservedRead (keys : List K)
  | keysReadFinished (keys : List K)
  | keysReservedWrite (keys : List K)
  | keysWriteFinished (keys : List K)
  | keysFinishWriteAndReserveRead (keys : List K)
  | keysDeletedByManager (keys : List K)
deriving DecidableEq, Repr

structure L1Manager (K : Type) where
  objects : Dict K L1ObjectState
  memoryManager : L1MemoryManager
  writeTtlSeconds : ℕ
  readTtlSeconds : ℕ
  notifications : List (L1Notification K)

inductive WriteMode where
  | new
  | update
  | all
deriving DecidableEq, Repr

inductive Verdict (R : Type) where
  | refuse (reply : R)
  | keep (entry : L1ObjectState) (reply : R)
  | drop (reply : R)

structure KeyPass (K R : Type) where
  objects : Dict K L1ObjectState
  ret : Dict K R
  successfulKeys : List K
  needToFree : List MemoryObj
  needToFreeKeys : List K

structure WritePass (K : Type) where
  objects : Dict K L1ObjectState
  ret : Dict K L1OperationResult
  needToAllocate : List (K × Bool)
  successfulKeys : List K

namespace L1Manager

variable {K R : Type} [DecidableEq K]

def init (writeTtlSeconds readTtlSeconds : ℕ) : L1Manager K where
  objects := .empty
  memoryManager := ⟨0, []⟩
  writeTtlSeconds := writeTtlSeconds
  readTtlSeconds := readTtlSeconds
  notifications := []

variable (m : L1Manager K)

def notify (ns : List (L1Notification K)) : L1Manager K :=
  { m with notifications := m.notifications ++ ns }

def visit (absent : R) (act : L1ObjectState → Verdict R) (p : KeyPass K R) (key : K) :
    KeyPass K R :=
  match p.objects.get? key with
  | none => { p with ret := p.ret.set key absent }
  | some entry =>
      match act entry with
      | .refuse reply => { p with ret := p.ret.set key reply }
      | .keep entry' reply =>
          { p with
            objects := p.objects.set key entry'
            ret := p.ret.set key reply
            successfulKeys := p.successfulKeys ++ [key] }
      | .drop reply =>
          { objects := p.objects.erase key
            ret := p.ret.set key reply
            successfulKeys := p.successfulKeys ++ [key]
            needToFree := p.needToFree ++ [entry.memoryObj]
            needToFreeKeys := p.needToFreeKeys ++ [key] }

def keyPass (absent : R) (act : L1ObjectState → Verdict R) (objects : Dict K L1ObjectState)
    (keys : List K) : KeyPass K R :=
  keys.foldl (visit absent act) ⟨objects, .empty, [], [], []⟩

def reserveReadKey (now total : ℕ) (entry : L1ObjectState) : Verdict L1OperationResult :=
  if !entry.availableForRead now then .refuse (.keyNotReadable, none)
  else .keep { entry with readLock := entry.readLock.lockTimes now total }
    (.success, some entry.memoryObj)

variable (now : ℕ) (entry : L1ObjectState)

def unsafeReadKey : Verdict L1OperationResult :=
  if !entry.readLock.isLocked now then .refuse (.keyNotReadable, none)
  else .keep entry (.success, some entry.memoryObj)

def finishReadKey (now total : ℕ) (entry : L1ObjectState) : Verdict L1Error :=
  if entry.writeLock.isLocked now then .refuse .keyInWrongState
  else if !entry.readLock.isLocked now then .refuse .keyInWrongState
  else
    let entry' := { entry with readLock := entry.readLock.unlockTimes total }
    if entry'.isTemporary && !entry'.readLock.isLocked now then .drop .success
    else .keep entry' .success

def finishWriteKey : Verdict L1Error :=
  if !entry.writeLock.isLocked now then .refuse .keyInWrongState
  else if entry.readLock.isLocked now then .refuse .keyInWrongState
  else .keep { entry with writeLock := entry.writeLock.unlock } .success

def finishWriteAndReserveReadKey (now total : ℕ) (entry : L1ObjectState) :
    Verdict L1OperationResult :=
  if !entry.writeLock.isLocked now then .refuse (.keyInWrongState, none)
  else if entry.readLock.isLocked now then .refuse (.keyInWrongState, none)
  else .keep
    { entry with
      writeLock := entry.writeLock.unlock
      readLock := entry.readLock.lockTimes now total }
    (.success, some entry.memoryObj)

def deleteKey : Verdict L1Error :=
  if entry.readLock.isLocked now || entry.writeLock.isLocked now then .refuse .keyIsLocked
  else .drop .success

variable (keys : List K) (extraCount : ℤ)

def reserveReadPass : KeyPass K L1OperationResult :=
  keyPass (.keyNotExist, none) (reserveReadKey now (1 + validateExtraCount extraCount)) m.objects keys

def reserveRead : Dict K L1OperationResult × L1Manager K :=
  let p := m.reserveReadPass now keys extraCount
  (p.ret, { m with objects := p.objects }.notify [.keysReservedRead p.successfulKeys])

def unsafeRead : Dict K L1OperationResult :=
  (keyPass (.keyNotExist, none) (unsafeReadKey now) m.objects keys).ret

def finishReadPass : KeyPass K L1Error :=
  keyPass .keyNotExist (finishReadKey now (1 + validateExtraCount extraCount)) m.objects keys

def finishRead : Dict K L1Error × L1Manager K :=
  let p := m.finishReadPass now keys extraCount
  (p.ret,
    { m with
      objects := p.objects
      memoryManager := m.memoryManager.free p.needToFree }.notify
      [.keysReadFinished p.successfulKeys, .keysDeletedByManager p.needToFreeKeys])

def visitWrite (mode : WriteMode) (p : WritePass K) (request : K × Bool) : WritePass K :=
  match p.objects.get? request.1 with
  | none => { p with needToAllocate := p.needToAllocate ++ [request] }
  | some entry =>
      if mode = .new then { p with ret := p.ret.set request.1 (.keyNotWritable, none) }
      else if !entry.availableForWrite now then
        { p with ret := p.ret.set request.1 (.keyNotWritable, none) }
      else
        { p with
          objects := p.objects.set request.1 { entry with writeLock := entry.writeLock.lock now }
          ret := p.ret.set request.1 (.success, some entry.memoryObj)
          successfulKeys := p.successfulKeys ++ [request.1] }

def refuseAll (reply : L1OperationResult) (ret : Dict K L1OperationResult)
    (requests : List (K × Bool)) : Dict K L1OperationResult :=
  requests.foldl (fun ret request => ret.set request.1 reply) ret

def install (now writeTtl readTtl : ℕ) (p : WritePass K) (allocated : (K × Bool) × MemoryObj) :
    WritePass K :=
  { p with
    objects := p.objects.set allocated.1.1
      { memoryObj := allocated.2
        writeLock := (TTLLock.init writeTtl).lock now
        readLock := TTLLock.init readTtl
        isTemporary := allocated.1.2 }
    ret := p.ret.set allocated.1.1 (.success, some allocated.2)
    successfulKeys := p.successfulKeys ++ [allocated.1.1] }

def reserveWrite (granted : Bool) (keys : List K) (isTemporary : List Bool) (mode : WriteMode) :
    Dict K L1OperationResult × L1Manager K :=
  let p := (keys.zip isTemporary).foldl (visitWrite now mode) ⟨m.objects, .empty, [], []⟩
  if p.needToAllocate.isEmpty then (p.ret, { m with objects := p.objects })
  else if mode = .update then
    (refuseAll (.keyNotWritable, none) p.ret p.needToAllocate, { m with objects := p.objects })
  else
    match m.memoryManager.allocate granted p.needToAllocate.length with
    | ((.success, allocatedObjs), mm) =>
        let q := (p.needToAllocate.zip allocatedObjs).foldl
          (install now m.writeTtlSeconds m.readTtlSeconds) p
        (q.ret, { m with objects := q.objects, memoryManager := mm }.notify
          [.keysReservedWrite q.successfulKeys])
    | ((_, allocatedObjs), mm) =>
        (refuseAll (.outOfMemory, none) p.ret p.needToAllocate,
          { m with objects := p.objects, memoryManager := mm.free allocatedObjs }.notify
            [.keysReservedWrite p.successfulKeys])

def finishWritePass : KeyPass K L1Error :=
  keyPass .keyNotExist (finishWriteKey now) m.objects keys

def finishWrite : Dict K L1Error × L1Manager K :=
  let p := m.finishWritePass now keys
  (p.ret, { m with objects := p.objects }.notify [.keysWriteFinished p.successfulKeys])

def finishWriteAndReserveReadPass : KeyPass K L1OperationResult :=
  keyPass (.keyNotExist, none)
    (finishWriteAndReserveReadKey now (1 + validateExtraCount extraCount)) m.objects keys

def finishWriteAndReserveRead : Dict K L1OperationResult × L1Manager K :=
  let p := m.finishWriteAndReserveReadPass now keys extraCount
  (p.ret,
    { m with objects := p.objects }.notify [.keysFinishWriteAndReserveRead p.successfulKeys])

def delete : Dict K L1Error × L1Manager K :=
  let p := keyPass .keyNotExist (deleteKey now) m.objects keys
  (p.ret,
    { m with
      objects := p.objects
      memoryManager := m.memoryManager.free p.needToFree }.notify
      [.keysDeletedByManager p.successfulKeys])

def isUnlocked : Bool :=
  !(entry.writeLock.isLocked now || entry.readLock.isLocked now)

def clear (force : Bool) : L1Manager K :=
  if force then
    { m with
      objects := .empty
      memoryManager := m.memoryManager.free (m.objects.values.map L1ObjectState.memoryObj) }.notify
      [.keysDeletedByManager m.objects.keys]
  else
    let cleared := m.objects.items.filter (fun item => isUnlocked now item.2)
    let keysToClear := cleared.map Prod.fst
    let m' := { m with
      objects := keysToClear.foldl Dict.erase m.objects
      memoryManager := m.memoryManager.free (cleared.map (fun item => item.2.memoryObj)) }
    if keysToClear.isEmpty then m' else m'.notify [.keysDeletedByManager keysToClear]

end L1Manager

inductive L1Step (K : Type) where
  | advance (ms : ℕ)
  | reserveRead (keys : List K) (extraCount : ℤ)
  | unsafeRead (keys : List K)
  | finishRead (keys : List K) (extraCount : ℤ)
  | reserveWrite (granted : Bool) (keys : List K) (isTemporary : List Bool) (mode : WriteMode)
  | finishWrite (keys : List K)
  | finishWriteAndReserveRead (keys : List K) (extraCount : ℤ)
  | delete (keys : List K)
  | clear (force : Bool)
deriving DecidableEq

def L1Step.tick {K : Type} (now : ℕ) : L1Step K → ℕ
  | .advance ms => now + ms
  | _ => now

def L1Manager.step {K : Type} [DecidableEq K] (m : L1Manager K) (now : ℕ) : L1Step K → L1Manager K
  | .advance _ => m
  | .reserveRead keys extraCount => (m.reserveRead now keys extraCount).2
  | .unsafeRead _ => m
  | .finishRead keys extraCount => (m.finishRead now keys extraCount).2
  | .reserveWrite granted keys isTemporary mode =>
      (m.reserveWrite now granted keys isTemporary mode).2
  | .finishWrite keys => (m.finishWrite now keys).2
  | .finishWriteAndReserveRead keys extraCount => (m.finishWriteAndReserveRead now keys extraCount).2
  | .delete keys => (m.delete now keys).2
  | .clear force => m.clear now force

end LMCache
