import LMCache.StorageBackend.CachePolicy
import Mathlib.Algebra.BigOperators.Group.List.Basic
import Mathlib.Algebra.GroupWithZero.Nat
import Mathlib.Algebra.Order.Group.Int

namespace LMCache

structure KVObject (Λ X E : Type) where
  bytes : List ℕ
  layout : Λ
  otherGroups : List Λ
  cachedPositions : X
  extra : Option E
deriving DecidableEq

structure DiskCacheMetadata (Λ X : Type) where
  path : List Char
  size : ℕ
  layout : Λ
  cachedPositions : X
  pinCount : ℤ
deriving DecidableEq

namespace DiskCacheMetadata

variable {Λ X : Type} (m : DiskCacheMetadata Λ X)

def canEvict : Bool := decide (¬ 0 < m.pinCount)

def pin : DiskCacheMetadata Λ X := { m with pinCount := m.pinCount + 1 }

def unpin : DiskCacheMetadata Λ X :=
  { m with pinCount := m.pinCount - 1 }

end DiskCacheMetadata

structure LocalDiskConfig (K Λ : Type) where
  path : List Char
  toStr : K → List Char
  maxCacheSize : ℕ
  bufferSize : Λ → ℕ

namespace LocalDiskConfig

variable {K Λ : Type}

def keyToPath (cfg : LocalDiskConfig K Λ) (key : K) : List Char :=
  cfg.path ++ ['/'] ++ (cfg.toStr key).map (fun c => if c = '/' then '-' else c) ++ ['.', 'p', 't']

end LocalDiskConfig

inductive PutPhase where
  | queued
  | written
  | entered
deriving DecidableEq

structure DiskPutTask (K Λ X E : Type) where
  key : K
  memoryObj : KVObject Λ X E
  size : ℕ
  phase : PutPhase

inductive LoadPhase where
  | allocated
  | read
  | positioned
deriving DecidableEq

structure LoadTarget (K Λ X E : Type) where
  key : K
  diskMeta : DiskCacheMetadata Λ X
  memoryObj : KVObject Λ X E
  phase : LoadPhase

structure ReadJob (K Λ X E : Type) where
  prefetch : Bool
  toLocate : List K
  toLoad : List (LoadTarget K Λ X E)
  loaded : List (K × KVObject Λ X E)

inductive ReadAnswer (K Λ X E : Type) where
  | returned (objs : List (K × KVObject Λ X E))
  | missing (key : K)
  | raised (lockHeld : Bool) (buffers : ℕ)

-- puts has the accepted puts, answers what the reads have returned; locked says that a call has
-- ended without releasing disk_lock
structure DiskState (K Λ X E : Type) where
  dict : Dict K (DiskCacheMetadata Λ X)
  files : List Char → Option (List ℕ)
  currentCacheSize : ℤ
  putTasks : List K
  tasks : List (DiskPutTask K Λ X E)
  policy : CachePolicy K
  locked : Bool
  jobs : Dict ℕ (ReadJob K Λ X E)
  puts : List (K × KVObject Λ X E)
  answers : List (ReadAnswer K Λ X E)

inductive DiskEvent (K Λ X E : Type) where
  | submitPutTask (key : K) (memoryObj : KVObject Λ X E) (physicalSize : ℕ)
  | writeFile (key : K)
  | insertKey (key : K)
  | removePutTask (key : K)
  | remove (key : K)
  | getBlocking (jobId : ℕ) (key : K) (memory : Option (ℕ → ℕ))
  | batchedGetNonBlocking (jobId : ℕ) (keys : List K)
  | locate (jobId : ℕ) (memory : Option (ℕ → ℕ))
  | readFile (jobId : ℕ)
  | takePositions (jobId : ℕ)
  | unpinLoaded (jobId : ℕ)
  | pin (key : K)
  | unpin (key : K)
  | fileLost (path : List Char)

inductive RoomResult where
  | room
  | full
  | raised
deriving DecidableEq

variable {K Λ X E : Type} [DecidableEq K]

namespace DiskState

def start (kind : PolicyKind) : DiskState K Λ X E :=
  ⟨Dict.empty, fun _ => none, 0, [], [], .init kind, false, Dict.empty, [], []⟩

variable (st : DiskState K Λ X E)

def setFile (path : List Char) (content : Option (List ℕ)) : DiskState K Λ X E :=
  { st with files := fun p => if p = path then content else st.files p }

def answer (ans : ReadAnswer K Λ X E) : DiskState K Λ X E :=
  { st with answers := st.answers ++ [ans] }

variable (key : K)

def evict (diskMeta : DiskCacheMetadata Λ X) : DiskState K Λ X E × Bool :=
  ({ st with dict := st.dict.erase key }.setFile diskMeta.path none,
    (st.files diskMeta.path).isSome)

def makeRoom (maxCacheSize requiredSize : ℕ) : ℕ → DiskState K Λ X E →
    RoomResult × DiskState K Λ X E
  | fuel, st =>
      if st.currentCacheSize + requiredSize ≤ maxCacheSize then (.room, st)
      else
        match st.policy.getEvictCandidates DiskCacheMetadata.canEvict st.dict with
        | none => (.raised, st)
        | some (none, _) => (.full, st)
        | some (some evictKey, policy) =>
            match fuel, st.dict.get? evictKey with
            | 0, _ => (.full, st)
            | _, none => (.raised, st)
            | fuel + 1, some diskMeta =>
                let st' := { st with
                  policy := policy
                  currentCacheSize := st.currentCacheSize - diskMeta.size }
                if (st'.evict evictKey diskMeta).2 then
                  makeRoom maxCacheSize requiredSize fuel (st'.evict evictKey diskMeta).1
                else (.raised, (st'.evict evictKey diskMeta).1)

def insertPutTask : DiskState K Λ X E :=
  { st with putTasks := st.putTasks ++ [key] }

variable (cfg : LocalDiskConfig K Λ)

def submitPutTask (st : DiskState K Λ X E) (key : K) (memoryObj : KVObject Λ X E)
    (requiredSize : ℕ) : DiskState K Λ X E :=
  if key ∈ st.putTasks then st
  else
    match makeRoom cfg.maxCacheSize requiredSize st.dict.items.length
      (st.insertPutTask key) with
    | (.room, st) =>
        { st with
          currentCacheSize := st.currentCacheSize + requiredSize
          policy := st.policy.updateOnPut key
          tasks := st.tasks ++ [⟨key, memoryObj, requiredSize, .queued⟩]
          puts := st.puts ++ [(key, memoryObj)] }
    | (_, st) => st

def setPhase (phase : PutPhase) : DiskState K Λ X E :=
  { st with
    tasks := st.tasks.map fun task => if task.key = key then { task with phase := phase } else task }

def dropTask : DiskState K Λ X E :=
  { st with tasks := st.tasks.filter fun task => decide (task.key ≠ key) }

def taskOf (phase : PutPhase) : Option (DiskPutTask K Λ X E) :=
  st.tasks.find? fun task => decide (task.key = key ∧ task.phase = phase)

def writeFile (st : DiskState K Λ X E) (key : K) : DiskState K Λ X E :=
  match st.taskOf key .queued with
  | none => st
  | some task => (st.setFile (cfg.keyToPath key) (some task.memoryObj.bytes)).setPhase key .written

def insertKey (st : DiskState K Λ X E) (key : K) : DiskState K Λ X E :=
  match st.taskOf key .written with
  | none => st
  | some task =>
      if st.dict.contains key then
        match st.policy.updateOnHit key st.dict with
        | none => st.dropTask key
        | some (policy, dict) => { st with policy := policy, dict := dict }.setPhase key .entered
      else
        { st with
          dict := st.dict.set key
            ⟨cfg.keyToPath key, task.size, task.memoryObj.layout, task.memoryObj.cachedPositions, 0⟩
        }.setPhase key .entered

def removePutTask : DiskState K Λ X E :=
  match st.taskOf key .entered with
  | none => st
  | some _ => { st with putTasks := st.putTasks.erase key }.dropTask key

def remove : DiskState K Λ X E :=
  match st.dict.get? key with
  | none => st
  | some diskMeta =>
      match st.evict key diskMeta with
      | (st, false) => { st with locked := true }
      | (st, true) =>
          match st.policy.updateOnForceEvict key with
          | none => { st with locked := true }
          | some policy => { st with policy := policy }

def setPins (f : DiskCacheMetadata Λ X → DiskCacheMetadata Λ X) : DiskState K Λ X E :=
  match st.dict.get? key with
  | none => st
  | some diskMeta => { st with dict := st.dict.set key (f diskMeta) }

variable (jobId : ℕ) (job : ReadJob K Λ X E)

def setJob : DiskState K Λ X E :=
  { st with jobs := st.jobs.set jobId job }

def fail (lockHeld : Bool) : DiskState K Λ X E :=
  { st with
    jobs := st.jobs.erase jobId
    locked := st.locked || lockHeld
    answers := st.answers ++ [.raised lockHeld (job.loaded.length + job.toLoad.length)] }

def finish : DiskState K Λ X E :=
  if job.toLocate.isEmpty && job.toLoad.isEmpty then
    { st with jobs := st.jobs.erase jobId }.answer (.returned job.loaded)
  else st.setJob jobId job

def allocated (cfg : LocalDiskConfig K Λ) (key : K) (diskMeta : DiskCacheMetadata Λ X)
    (memory : ℕ → ℕ) : LoadTarget K Λ X E :=
  ⟨key, diskMeta, ⟨(List.range (cfg.bufferSize diskMeta.layout)).map memory, diskMeta.layout, [],
    diskMeta.cachedPositions, none⟩, .allocated⟩

def getBlocking (st : DiskState K Λ X E) (jobId : ℕ) (key : K) (memory : Option (ℕ → ℕ)) :
    DiskState K Λ X E :=
  match st.dict.get? key with
  | none => st.answer (.missing key)
  | some diskMeta =>
      match st.policy.updateOnHit key st.dict with
      | none => st.fail jobId ⟨false, [], [], []⟩ true
      | some (policy, dict) =>
          let st' := { st with policy := policy, dict := dict }
          match memory with
          | none => st'.fail jobId ⟨false, [], [], []⟩ false
          | some memory => st'.setJob jobId ⟨false, [], [allocated cfg key diskMeta memory], []⟩

def locateKey (st : DiskState K Λ X E) (jobId : ℕ) (job : ReadJob K Λ X E) (key : K)
    (keys : List K) (memory : Option (ℕ → ℕ)) : DiskState K Λ X E :=
  match st.dict.get? key, memory with
  | some diskMeta, some memory =>
      let st' := st.setPins key DiskCacheMetadata.pin
      match st'.policy.updateOnHit key st'.dict with
      | none => st'.fail jobId job true
      | some (policy, dict) =>
          { st' with policy := policy, dict := dict }.setJob jobId
            { job with toLocate := keys, toLoad := job.toLoad ++ [allocated cfg key diskMeta memory] }
  | _, _ => st.fail jobId job true

def locate (st : DiskState K Λ X E) (jobId : ℕ) (memory : Option (ℕ → ℕ)) : DiskState K Λ X E :=
  match st.jobs.get? jobId with
  | none => st
  | some job =>
      match job.toLocate with
      | [] => st
      | key :: keys => st.locateKey cfg jobId job key keys memory

def headTarget (phase : LoadPhase) :
    Option (ReadJob K Λ X E × LoadTarget K Λ X E × List (LoadTarget K Λ X E)) :=
  (st.jobs.get? jobId).bind fun job =>
    match job.toLocate, job.toLoad with
    | [], target :: toLoad => if target.phase = phase then some (job, target, toLoad) else none
    | _, _ => none

variable (target : LoadTarget K Λ X E)

def replaceHead (toLoad : List (LoadTarget K Λ X E)) : DiskState K Λ X E :=
  st.setJob jobId { job with toLoad := target :: toLoad }

def finishHead (toLoad : List (LoadTarget K Λ X E)) : DiskState K Λ X E :=
  st.finish jobId
    { job with toLoad := toLoad, loaded := job.loaded ++ [(target.key, target.memoryObj)] }

def readInto (content buffer : List ℕ) : List ℕ :=
  content.take buffer.length ++ buffer.drop content.length

def filled (content : List ℕ) : LoadTarget K Λ X E :=
  { target with
    memoryObj := { target.memoryObj with bytes := readInto content target.memoryObj.bytes }
    phase := .read }

def readFile : DiskState K Λ X E :=
  match st.headTarget jobId .allocated with
  | none => st
  | some (job, target, toLoad) =>
      match st.files target.diskMeta.path with
      | none =>
          { st with dict := st.dict.erase target.key }.replaceHead jobId job
            { target with phase := .read } toLoad
      | some content => st.replaceHead jobId job (filled target content) toLoad

def positioned (target : LoadTarget K Λ X E) (cachedPositions : X) : LoadTarget K Λ X E :=
  { target with
    memoryObj := { target.memoryObj with cachedPositions := cachedPositions }
    phase := .positioned }

def takePositions : DiskState K Λ X E :=
  match st.headTarget jobId .read with
  | none => st
  | some (job, target, toLoad) =>
      match st.dict.get? target.key with
      | none => st.fail jobId job false
      | some entry =>
          if job.prefetch then
            st.replaceHead jobId job (positioned target entry.cachedPositions) toLoad
          else st.finishHead jobId job (positioned target entry.cachedPositions) toLoad

def unpinLoaded : DiskState K Λ X E :=
  match st.headTarget jobId .positioned with
  | none => st
  | some (job, target, toLoad) =>
      if st.dict.contains target.key then
        (st.setPins target.key DiskCacheMetadata.unpin).finishHead jobId job target toLoad
      else st.fail jobId job true

end DiskState

namespace LocalDiskConfig

def exec (cfg : LocalDiskConfig K Λ) (st : DiskState K Λ X E) :
    DiskEvent K Λ X E → DiskState K Λ X E
  | .submitPutTask key memoryObj physicalSize =>
      if st.locked then st else st.submitPutTask cfg key memoryObj physicalSize
  | .writeFile key => st.writeFile cfg key
  | .insertKey key => if st.locked then st else st.insertKey cfg key
  | .removePutTask key => st.removePutTask key
  | .remove key => if st.locked then st else st.remove key
  | .getBlocking jobId key memory =>
      if st.locked || st.jobs.contains jobId then st else st.getBlocking cfg jobId key memory
  | .batchedGetNonBlocking jobId keys =>
      if st.jobs.contains jobId then st else st.finish jobId ⟨true, keys, [], []⟩
  | .locate jobId memory => if st.locked then st else st.locate cfg jobId memory
  | .readFile jobId => st.readFile jobId
  | .takePositions jobId => st.takePositions jobId
  | .unpinLoaded jobId => if st.locked then st else st.unpinLoaded jobId
  | .pin key => if st.locked then st else st.setPins key DiskCacheMetadata.pin
  | .unpin key => if st.locked then st else st.setPins key DiskCacheMetadata.unpin
  | .fileLost path => st.setFile path none

end LocalDiskConfig

end LMCache
