import LMCache.Foundations.Dict
import LMCache.Foundations.Execution
import LMCache.StorageOps.Bitmap

namespace LMCache

structure MemoryMeta where
  address : ℕ
  phySize : ℕ
deriving DecidableEq, Repr

structure NixlStoreObj where
  pageIndices : List ℕ
  size : ℕ
  pinCount : ℕ
  pageIndicesNonempty : pageIndices ≠ []
deriving DecidableEq

namespace NixlStoreObj

variable (obj : NixlStoreObj)

def increasePinCount : NixlStoreObj := { obj with pinCount := obj.pinCount + 1 }

def decreasePinCount : NixlStoreObj :=
  if 0 < obj.pinCount then { obj with pinCount := obj.pinCount - 1 } else obj

@[simp] theorem increasePinCount_pageIndices :
    obj.increasePinCount.pageIndices = obj.pageIndices := rfl

@[simp] theorem decreasePinCount_pageIndices :
    obj.decreasePinCount.pageIndices = obj.pageIndices := by
  rw [decreasePinCount]
  split_ifs <;> rfl

end NixlStoreObj

structure NixlObjPool where
  indices : List ℕ
deriving DecidableEq, Repr

namespace NixlObjPool

def init (numTotalObjs : ℕ) : NixlObjPool := ⟨List.range numTotalObjs⟩

variable (pool : NixlObjPool)

def batchedAllocate (numObjs : ℕ) : List ℕ × NixlObjPool :=
  if pool.indices.length < numObjs then ([], pool)
  else (pool.indices.take numObjs, ⟨pool.indices.drop numObjs⟩)

def batchedFree (objIndices : List ℕ) : NixlObjPool :=
  ⟨pool.indices ++ objIndices⟩

theorem batchedAllocate_append (numObjs : ℕ) :
    (pool.batchedAllocate numObjs).1 ++ (pool.batchedAllocate numObjs).2.indices = pool.indices := by
  rw [batchedAllocate]
  split_ifs
  · rfl
  · exact List.take_append_drop _ _

end NixlObjPool

inductive XferState where
  | proc
  | done
  | err
deriving DecidableEq, Repr

structure XferAnswers where
  handle : Except String Unit
  transfer : Except String XferState
  checks : List (Except String XferState)
  release : Except String Unit

namespace XferAnswers

def awaitXfer : XferState → List (Except String XferState) → Option (Except String Unit)
  | .done, _ => some (.ok ())
  | .err, _ => some (.error "NIXL transfer failed")
  | .proc, [] => none
  | .proc, .error e :: _ => some (.error e)
  | .proc, .ok state :: checks => awaitXfer state checks

variable (answers : XferAnswers)

def postNonBlocking : Option (Except String Unit) :=
  match answers.transfer with
  | .error e => some (.error e)
  | .ok state => awaitXfer state answers.checks

def run : Option (Except String Unit) :=
  match answers.handle with
  | .error e => some (.error e)
  | .ok () =>
    match answers.postNonBlocking with
    | none => none
    | some (.error e) => some (.error e)
    | some (.ok ()) => some answers.release

def Completes : Prop :=
  answers.handle = .ok () ∧ answers.postNonBlocking = some (.ok ())

instance (answers : XferAnswers) : Decidable answers.Completes :=
  inferInstanceAs (Decidable (_ ∧ _))

end XferAnswers

structure LoadPlan where
  bitmap : Bitmap
  memIndicesFlat : List ℕ
  storageIndicesFlat : List ℕ

structure StorePlan where
  memIndicesFlat : List ℕ
  storageIndicesFlat : List ℕ
  storageObjs : List NixlStoreObj

structure NixlStoreTask (K : Type) where
  keys : List K
  plan : StorePlan

def NixlStoreTask.pairs {K : Type} (task : NixlStoreTask K) : List (K × NixlStoreObj) :=
  task.keys.zip task.plan.storageObjs

structure NixlStore (K : Type) where
  l1AlignBytes : ℕ
  pool : NixlObjPool
  memoryObjects : Dict K NixlStoreObj
  nextTaskId : ℕ
  storeTasks : Dict ℕ (NixlStoreTask K)
  completedStoreTasks : Dict ℕ Bool
  completedLookupTasks : Dict ℕ Bitmap
  completedLoadTasks : Dict ℕ Bitmap
  l1AlignBytesPos : 0 < l1AlignBytes

namespace NixlStore

variable {K : Type}

def init (l1AlignBytes numTotalObjs : ℕ) (h : 0 < l1AlignBytes) : NixlStore K :=
  ⟨l1AlignBytes, .init numTotalObjs, .empty, 0, .empty, .empty, .empty, .empty, h⟩

def getMemoryIndices (s : NixlStore K) (rawAddr memSize : ℕ) : Except String (List ℕ) :=
  if rawAddr % s.l1AlignBytes ≠ 0 then
    .error s!"Raw address {rawAddr} is not aligned to page size {s.l1AlignBytes}"
  else if memSize % s.l1AlignBytes ≠ 0 then
    .error s!"Memory size {memSize} is not a multiple of page size {s.l1AlignBytes}"
  else .ok ((List.range (memSize / s.l1AlignBytes)).map (fun i => rawAddr / s.l1AlignBytes + i))

def buildStore (s : NixlStore K) : List MemoryMeta → NixlObjPool → StorePlan →
    StorePlan × NixlObjPool × Except String Unit
  | [], pool, plan => (plan, pool, .ok ())
  | obj :: objects, pool, plan =>
    match s.getMemoryIndices obj.address obj.phySize with
    | .error e => (plan, pool, .error e)
    | .ok memIndices =>
      let (storageIndices, pool) := pool.batchedAllocate memIndices.length
      if h : storageIndices = [] then (plan, pool, .ok ())
      else
        buildStore s objects pool
          ⟨plan.memIndicesFlat ++ memIndices, plan.storageIndicesFlat ++ storageIndices,
            plan.storageObjs ++ [⟨storageIndices, obj.phySize, 1, h⟩]⟩

variable [DecidableEq K] (s : NixlStore K) (keys : List K) (objects : List MemoryMeta)

def submitStoreTask : NixlStore K :=
  let taskId := s.nextTaskId
  match s.buildStore (objects.take keys.length) s.pool ⟨[], [], []⟩ with
  | (plan, pool, .ok ()) =>
    { s with
      nextTaskId := taskId + 1
      pool := pool
      storeTasks := s.storeTasks.set taskId ⟨keys, plan⟩ }
  | (plan, pool, .error _) =>
    { s with
      nextTaskId := taskId + 1
      pool := pool.batchedFree plan.storageIndicesFlat
      completedStoreTasks := s.completedStoreTasks.set taskId false }

def record (memoryObjects : Dict K NixlStoreObj) (pairs : List (K × NixlStoreObj)) :
    Dict K NixlStoreObj :=
  pairs.foldl (fun objects p => objects.set p.1 p.2.decreasePinCount) memoryObjects

def finishStore (taskId : ℕ) (answers : XferAnswers) : NixlStore K :=
  match s.storeTasks.get? taskId with
  | none => s
  | some task =>
    match answers.run with
    | none => s
    | some (.ok ()) =>
      { s with
        storeTasks := s.storeTasks.erase taskId
        memoryObjects := record s.memoryObjects (task.pairs)
        completedStoreTasks := s.completedStoreTasks.set taskId true }
    | some (.error _) =>
      { s with
        storeTasks := s.storeTasks.erase taskId
        pool := s.pool.batchedFree task.plan.storageIndicesFlat
        completedStoreTasks := s.completedStoreTasks.set taskId false }

def popCompletedStoreTasks : Dict ℕ Bool × NixlStore K :=
  (s.completedStoreTasks, { s with completedStoreTasks := .empty })

def lookupKeys : ℕ → List K → Bitmap → Dict K NixlStoreObj → Bitmap × Dict K NixlStoreObj
  | _, [], bitmap, objects => (bitmap, objects)
  | i, key :: keys, bitmap, objects =>
    match objects.get? key with
    | none => lookupKeys (i + 1) keys bitmap objects
    | some obj => lookupKeys (i + 1) keys (bitmap.set i) (objects.set key obj.increasePinCount)

def submitLookupAndLockTask : NixlStore K :=
  let (bitmap, objects) := lookupKeys 0 keys (.ofSize keys.length) s.memoryObjects
  { s with
    nextTaskId := s.nextTaskId + 1
    memoryObjects := objects
    completedLookupTasks := s.completedLookupTasks.set s.nextTaskId bitmap }

def queryLookupAndLockResult (taskId : ℕ) : Option Bitmap × NixlStore K :=
  (s.completedLookupTasks.get? taskId,
    { s with completedLookupTasks := s.completedLookupTasks.erase taskId })

def unlockKey (objects : Dict K NixlStoreObj) (key : K) : Dict K NixlStoreObj :=
  match objects.get? key with
  | none => objects
  | some obj => objects.set key obj.decreasePinCount

def submitUnlock : NixlStore K :=
  { s with memoryObjects := keys.foldl unlockKey s.memoryObjects }

def buildLoad (s : NixlStore K) (objects : List MemoryMeta) :
    ℕ → List K → LoadPlan → LoadPlan × Except String Unit
  | _, [], plan => (plan, .ok ())
  | i, key :: keys, plan =>
    match s.memoryObjects.get? key with
    | none => buildLoad s objects (i + 1) keys plan
    | some storageObj =>
      match objects[i]? with
      | none => (plan, .error "list index out of range")
      | some obj =>
        match s.getMemoryIndices obj.address obj.phySize with
        | .error e => (plan, .error e)
        | .ok memIndices =>
          buildLoad s objects (i + 1) keys
            ⟨plan.bitmap.set i, plan.memIndicesFlat ++ memIndices,
              plan.storageIndicesFlat ++ storageObj.pageIndices⟩

def loadPlan : LoadPlan × Except String Unit :=
  s.buildLoad objects 0 keys ⟨.ofSize keys.length, [], []⟩

def loadBitmap (answers : XferAnswers) : Option Bitmap :=
  match s.loadPlan keys objects with
  | (plan, .error _) => some plan.bitmap
  | (plan, .ok ()) =>
    if plan.memIndicesFlat.isEmpty then some plan.bitmap
    else answers.run.map (fun _ => plan.bitmap)

def executeLoadInLoop (taskId : ℕ) (answers : XferAnswers) : NixlStore K :=
  match s.loadBitmap keys objects answers with
  | none => s
  | some bitmap => { s with completedLoadTasks := s.completedLoadTasks.set taskId bitmap }

def submitLoadTask (answers : XferAnswers) : NixlStore K :=
  { s.executeLoadInLoop keys objects s.nextTaskId answers with nextTaskId := s.nextTaskId + 1 }

def queryLoadResult (taskId : ℕ) : Option Bitmap × NixlStore K :=
  (s.completedLoadTasks.get? taskId,
    { s with completedLoadTasks := s.completedLoadTasks.erase taskId })

end NixlStore

inductive NixlEvent (K : Type) where
  | store (keys : List K) (objects : List MemoryMeta)
  | storeDone (taskId : ℕ) (answers : XferAnswers)
  | popStores
  | lookup (keys : List K)
  | queryLookup (taskId : ℕ)
  | unlock (keys : List K)
  | load (keys : List K) (objects : List MemoryMeta) (answers : XferAnswers)
  | queryLoad (taskId : ℕ)

namespace NixlStore

variable {K : Type} [DecidableEq K]

def exec (s : NixlStore K) : NixlEvent K → NixlStore K
  | .store keys objects => s.submitStoreTask keys objects
  | .storeDone taskId answers => s.finishStore taskId answers
  | .popStores => s.popCompletedStoreTasks.2
  | .lookup keys => s.submitLookupAndLockTask keys
  | .queryLookup taskId => (s.queryLookupAndLockResult taskId).2
  | .unlock keys => s.submitUnlock keys
  | .load keys objects answers => s.submitLoadTask keys objects answers
  | .queryLoad taskId => (s.queryLoadResult taskId).2

structure Numbered (s : NixlStore K) : Prop where
  stores : ∀ t ∈ s.storeTasks.keys, t < s.nextTaskId
  loads : ∀ t ∈ s.completedLoadTasks.keys, t < s.nextTaskId

theorem lt_of_mem_keys_set {V : Type} {d : Dict ℕ V} {n t : ℕ} {v : V} (h : ∀ t ∈ d.keys, t < n)
    (ht : t ∈ (d.set n v).keys) : t < n + 1 := by
  rcases (Dict.mem_keys_set d n t v).mp ht with rfl | ht
  · exact Nat.lt_succ_self t
  · exact Nat.lt_succ_of_lt (h t ht)

theorem mem_keys_of_erase {V : Type} {d : Dict ℕ V} {n t : ℕ} (ht : t ∈ (d.erase n).keys) :
    t ∈ d.keys := by
  rw [Dict.mem_keys_iff] at ht ⊢
  obtain ⟨v, hv⟩ := ht
  rw [Dict.get?_erase] at hv
  split_ifs at hv
  exact ⟨v, hv⟩

variable (l1AlignBytes numTotalObjs : ℕ)

omit [DecidableEq K] in
theorem numbered_init (h : 0 < l1AlignBytes) :
    Numbered (init l1AlignBytes numTotalObjs h : NixlStore K) :=
  ⟨fun _ ht => by simp [init, Dict.empty, Dict.keys] at ht,
    fun _ ht => by simp [init, Dict.empty, Dict.keys] at ht⟩

omit [DecidableEq K] in
theorem Numbered.submitStoreTask {s : NixlStore K} (h : Numbered s) (keys : List K)
    (objects : List MemoryMeta) : Numbered (s.submitStoreTask keys objects) := by
  rw [NixlStore.submitStoreTask]
  rcases s.buildStore (objects.take keys.length) s.pool ⟨[], [], []⟩ with ⟨plan, pool, _ | _⟩
  · exact ⟨fun t ht => Nat.lt_succ_of_lt (h.stores t ht), fun t ht => Nat.lt_succ_of_lt (h.loads t ht)⟩
  · exact ⟨fun t ht => lt_of_mem_keys_set h.stores ht, fun t ht => Nat.lt_succ_of_lt (h.loads t ht)⟩

theorem Numbered.finishStore {s : NixlStore K} (h : Numbered s) (taskId : ℕ)
    (answers : XferAnswers) : Numbered (s.finishStore taskId answers) := by
  rw [NixlStore.finishStore]
  cases s.storeTasks.get? taskId with
  | none => exact h
  | some task =>
    rcases answers.run with _ | _ | _
    · exact h
    · exact ⟨fun t ht => h.stores t (mem_keys_of_erase ht), h.loads⟩
    · exact ⟨fun t ht => h.stores t (mem_keys_of_erase ht), h.loads⟩

theorem Numbered.submitLoadTask {s : NixlStore K} (h : Numbered s) (keys : List K)
    (objects : List MemoryMeta) (answers : XferAnswers) :
    Numbered (s.submitLoadTask keys objects answers) := by
  rw [NixlStore.submitLoadTask, executeLoadInLoop]
  cases s.loadBitmap keys objects answers with
  | none =>
    exact ⟨fun t ht => Nat.lt_succ_of_lt (h.stores t ht), fun t ht => Nat.lt_succ_of_lt (h.loads t ht)⟩
  | some bitmap =>
    exact ⟨fun t ht => Nat.lt_succ_of_lt (h.stores t ht), fun t ht => lt_of_mem_keys_set h.loads ht⟩

theorem numbered_exec {s : NixlStore K} (h : Numbered s) (event : NixlEvent K) :
    Numbered (s.exec event) := by
  cases event with
  | store keys objects => exact h.submitStoreTask keys objects
  | storeDone taskId answers => exact h.finishStore taskId answers
  | popStores => exact ⟨h.stores, h.loads⟩
  | lookup keys =>
    exact ⟨fun t ht => Nat.lt_succ_of_lt (h.stores t ht), fun t ht => Nat.lt_succ_of_lt (h.loads t ht)⟩
  | queryLookup taskId => exact ⟨h.stores, h.loads⟩
  | unlock keys => exact ⟨h.stores, h.loads⟩
  | load keys objects answers => exact h.submitLoadTask keys objects answers
  | queryLoad taskId => exact ⟨h.stores, fun t ht => h.loads t (mem_keys_of_erase ht)⟩

theorem numbered_final (h : 0 < l1AlignBytes) (events : List (NixlEvent K)) :
    Numbered (Execution.final exec (init l1AlignBytes numTotalObjs h) events) := by
  induction events using List.reverseRecOn with
  | nil => exact numbered_init l1AlignBytes numTotalObjs h
  | append_singleton events event ih =>
    rw [Execution.final_append]
    exact numbered_exec ih event

end NixlStore

end LMCache
