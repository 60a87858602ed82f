import LMCache.Foundations.Dict
import LMCache.Foundations.Execution
import LMCache.StorageOps.BitmapRefinement

namespace LMCache

inductive L2OpType
  | store
  | lookup
  | load
  deriving DecidableEq, Repr

structure PendingOp (K : Type) where
  opType : L2OpType
  taskId : ℕ
  numKeys : ℕ
  lookupKeys : Option (List K)

structure NativeCompletion where
  futureId : ℕ
  ok : Bool
  error : String
  resultBools : Option (List Bool)

structure NativeConnectorL2Adapter (K : Type) where
  pendingOps : Dict ℕ (PendingOp K)
  completedStores : Dict ℕ Bool
  completedLookups : Dict ℕ Bitmap
  completedLoads : Dict ℕ Bitmap
  lockedKeys : Dict K ℕ
  nextTaskId : ℕ
  demuxing : Bool

inductive TaskResult
  | store (taskId : ℕ) (ok : Bool)
  | lookup (taskId : ℕ) (bits : List Bool)
  | load (taskId : ℕ) (bits : List Bool)
  deriving DecidableEq, Repr

def TaskResult.taskId : TaskResult → ℕ
  | .store taskId _ => taskId
  | .lookup taskId _ => taskId
  | .load taskId _ => taskId

inductive NativeAdapterEvent (K : Type)
  | submitStoreTask (keys : List K) (futureId : Option ℕ)
  | submitLookupAndLockTask (keys : List K) (futureId : Option ℕ)
  | submitLoadTask (keys : List K) (futureId : Option ℕ)
  | submitUnlock (keys : List K)
  | popCompletedStoreTasks
  | queryLookupAndLockResult (taskId : ℕ)
  | queryLoadResult (taskId : ℕ)
  | demux (completions : List NativeCompletion)

namespace NativeConnectorL2Adapter

variable {K : Type} [DecidableEq K]

def create : NativeConnectorL2Adapter K where
  pendingOps := .empty
  completedStores := .empty
  completedLookups := .empty
  completedLoads := .empty
  lockedKeys := .empty
  nextTaskId := 0
  demuxing := true

variable (s : NativeConnectorL2Adapter K)

def register (opType : L2OpType) (numKeys : ℕ) (lookupKeys : Option (List K))
    (futureId : Option ℕ) :
    Option ℕ × NativeConnectorL2Adapter K :=
  match futureId with
  | none => (none, { s with nextTaskId := s.nextTaskId + 1 })
  | some fid => (some s.nextTaskId, { s with
      nextTaskId := s.nextTaskId + 1
      pendingOps := s.pendingOps.set fid ⟨opType, s.nextTaskId, numKeys, lookupKeys⟩ })

variable (keys : List K) (futureId : Option ℕ)

def submitStoreTask :
    Option ℕ × NativeConnectorL2Adapter K := s.register .store keys.length none futureId

def submitLookupAndLockTask : Option ℕ × NativeConnectorL2Adapter K :=
  s.register .lookup keys.length (some keys) futureId

def submitLoadTask :
    Option ℕ × NativeConnectorL2Adapter K := s.register .load keys.length none futureId

def popCompletedStoreTasks : Dict ℕ Bool × NativeConnectorL2Adapter K :=
  (s.completedStores, { s with completedStores := .empty })

def queryLookupAndLockResult (taskId : ℕ) : Option Bitmap × NativeConnectorL2Adapter K :=
  (s.completedLookups.get? taskId,
    { s with completedLookups := s.completedLookups.erase taskId })

def queryLoadResult (taskId : ℕ) : Option Bitmap × NativeConnectorL2Adapter K :=
  (s.completedLoads.get? taskId, { s with completedLoads := s.completedLoads.erase taskId })

variable (lockedKeys : Dict K ℕ)

def unlockKey (key : K) : Dict K ℕ :=
  match lockedKeys.get? key with
  | none => lockedKeys
  | some count => if count ≤ 1 then lockedKeys.erase key else lockedKeys.set key (count - 1)

def submitUnlock : NativeConnectorL2Adapter K :=
  { s with lockedKeys := keys.foldl unlockKey s.lockedKeys }

def lockKey (key : K) : Dict K ℕ :=
  lockedKeys.set key ((lockedKeys.get? key).getD 0 + 1)

def recordFound (lookupKeys : List K) :
    List Bool → ℕ → Bitmap → Dict K ℕ → Bool × Bitmap × Dict K ℕ
  | [], _, bitmap, lockedKeys => (false, bitmap, lockedKeys)
  | found :: rest, i, bitmap, lockedKeys =>
      if found then
        match lookupKeys[i]? with
        | none => (true, bitmap.set i, lockedKeys)
        | some key => recordFound lookupKeys rest (i + 1) (bitmap.set i) (lockKey lockedKeys key)
      else recordFound lookupKeys rest (i + 1) bitmap lockedKeys

def setBits (bitmap : Bitmap) : List Bool → ℕ → Bitmap
  | [], _ => bitmap
  | found :: rest, i => setBits (if found then bitmap.set i else bitmap) rest (i + 1)

def routeLookup (op : PendingOp K) (c : NativeCompletion) : Bool × NativeConnectorL2Adapter K :=
  match c.ok, c.resultBools with
  | true, some resultBools =>
      match op.lookupKeys with
      | some lookupKeys =>
          let recorded := recordFound lookupKeys resultBools 0 (Bitmap.ofSize op.numKeys) s.lockedKeys
          if recorded.1 then (true, { s with lockedKeys := recorded.2.2 })
          else (false, { s with
            lockedKeys := recorded.2.2
            completedLookups := s.completedLookups.set op.taskId recorded.2.1 })
      | none => (false, { s with
          completedLookups := s.completedLookups.set op.taskId
            (setBits (Bitmap.ofSize op.numKeys) resultBools 0) })
  | _, _ => (false, { s with
      completedLookups := s.completedLookups.set op.taskId (Bitmap.ofSize op.numKeys) })

def demuxOne (c : NativeCompletion) : Bool × NativeConnectorL2Adapter K :=
  match s.pendingOps.get? c.futureId with
  | none => (false, s)
  | some op =>
      let s := { s with pendingOps := s.pendingOps.erase c.futureId }
      match op.opType with
      | .store => (false, { s with completedStores := s.completedStores.set op.taskId c.ok })
      | .lookup => s.routeLookup op c
      | .load => (false, { s with
          completedLoads := s.completedLoads.set op.taskId
            (if c.ok then (List.range op.numKeys).foldl Bitmap.set (Bitmap.ofSize op.numKeys)
              else Bitmap.ofSize op.numKeys) })

def demuxAll : List NativeCompletion → NativeConnectorL2Adapter K → NativeConnectorL2Adapter K
  | [], s => s
  | c :: completions, s =>
      let routed := s.demuxOne c
      if routed.1 then { routed.2 with demuxing := false } else demuxAll completions routed.2

def exec : NativeAdapterEvent K → NativeConnectorL2Adapter K
  | .submitStoreTask keys futureId => (s.submitStoreTask keys futureId).2
  | .submitLookupAndLockTask keys futureId => (s.submitLookupAndLockTask keys futureId).2
  | .submitLoadTask keys futureId => (s.submitLoadTask keys futureId).2
  | .submitUnlock keys => s.submitUnlock keys
  | .popCompletedStoreTasks => s.popCompletedStoreTasks.2
  | .queryLookupAndLockResult taskId => (s.queryLookupAndLockResult taskId).2
  | .queryLoadResult taskId => (s.queryLoadResult taskId).2
  | .demux completions => if s.demuxing then demuxAll completions s else s

def answers : NativeAdapterEvent K → List TaskResult
  | .popCompletedStoreTasks => s.popCompletedStoreTasks.1.items.map fun p => .store p.1 p.2
  | .queryLookupAndLockResult taskId =>
      ((s.queryLookupAndLockResult taskId).1.map fun b => .lookup taskId b.vector).toList
  | .queryLoadResult taskId =>
      ((s.queryLoadResult taskId).1.map fun b => .load taskId b.vector).toList
  | _ => []

def available : List TaskResult :=
  s.completedStores.items.map (fun p => .store p.1 p.2) ++
    s.completedLookups.items.map (fun p => .lookup p.1 p.2.vector) ++
    s.completedLoads.items.map fun p => .load p.1 p.2.vector

def count (key : K) : ℕ := (lockedKeys.get? key).getD 0

def lockCount (key : K) : ℕ := count s.lockedKeys key

end NativeConnectorL2Adapter

end LMCache
