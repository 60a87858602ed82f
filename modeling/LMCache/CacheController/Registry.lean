import LMCache.Foundations.Dict
import Mathlib.Data.Finset.Basic

namespace LMCache

open List Dict

structure KVChunkInfo where
  instanceId : String
  workerId : ℕ
  location : String
  deriving DecidableEq, Repr

inductive FullSyncState
  | idle
  | syncing
  | completed
  | failed
  deriving DecidableEq, Repr

structure WorkerSyncInfo where
  syncId : String
  state : FullSyncState
  expectedTotalKeys : ℕ
  expectedBatchCount : ℕ
  receivedBatches : Finset ℕ
  receivedKeysCount : ℕ
  deriving DecidableEq

structure WorkerNode (H : Type) where
  workerId : ℕ
  seqTracker : Dict String ℕ
  kvStore : Dict String (Finset H)
  syncInfo : Option WorkerSyncInfo

inductive OpType
  | kvAdmit
  | kvEvict
  deriving DecidableEq, Repr

structure KVOpEvent (H : Type) where
  opType : OpType
  key : H
  seqNum : ℕ

structure BatchedKVOperationMsg (H : Type) where
  instanceId : String
  workerId : ℕ
  location : String
  operations : List (KVOpEvent H)

structure InstanceNode (W : Type) where
  instanceId : String
  workers : Dict ℕ W

structure RegistryTree (W : Type) where
  instances : Dict String (InstanceNode W)
  ids : ∀ instanceId node, instances.get? instanceId = some node → node.instanceId = instanceId

variable {H W : Type} [DecidableEq H]

namespace WorkerNode

def create (workerId : ℕ) : WorkerNode H := ⟨workerId, .empty, .empty, none⟩

def applyOp (keys : Finset H) (op : KVOpEvent H) : Finset H :=
  match op.opType with
  | .kvAdmit => insert op.key keys
  | .kvEvict => keys.erase op.key

def trackSeq (location : String) (tracked : Dict String ℕ × Bool) (op : KVOpEvent H) :
    Dict String ℕ × Bool :=
  let outOfOrder := (tracked.1.get? location).any fun last => op.seqNum ≠ last + 1
  (tracked.1.set location op.seqNum, tracked.2 || outOfOrder)

variable (worker : WorkerNode H)

def isSyncing : Bool :=
  worker.syncInfo.any fun info => info.state = .syncing

def handleBatchedKvOperations (msg : BatchedKVOperationMsg H) (isFullSync : Bool) :
    Option (WorkerNode H × Bool) :=
  if worker.isSyncing && !isFullSync then none
  else
    let keys := msg.operations.foldl applyOp ((worker.kvStore.get? msg.location).getD ∅)
    let tracked :=
      if isFullSync then (worker.seqTracker, false)
      else msg.operations.foldl (trackSeq msg.location) (worker.seqTracker, false)
    let kvStore :=
      if keys = ∅ then worker.kvStore.erase msg.location else worker.kvStore.set msg.location keys
    some ({ worker with kvStore := kvStore, seqTracker := tracked.1 }, tracked.2)

def getKvKeys (location : String) : Finset H :=
  (worker.kvStore.get? location).getD ∅

def clearKv : Option String → WorkerNode H
  | none => { worker with kvStore := .empty, seqTracker := .empty }
  | some location => { worker with
      kvStore := worker.kvStore.erase location
      seqTracker := worker.seqTracker.erase location }

def findKeySimple (key : H) : Option KVChunkInfo :=
  (worker.kvStore.items.find? fun p => decide (key ∈ p.2)).map fun p => ⟨"", worker.workerId, p.1⟩

def Holds (key : H) : Prop := ∃ keys ∈ worker.kvStore.values, key ∈ keys

instance (worker : WorkerNode H) (key : H) : Decidable (worker.Holds key) :=
  inferInstanceAs (Decidable (∃ keys ∈ worker.kvStore.values, key ∈ keys))

omit [DecidableEq H] in
theorem getKvKeys_clearKv (location : String) :
    (worker.clearKv (some location)).getKvKeys location = ∅ := by
  simp [getKvKeys, clearKv, get?_erase]

theorem handleBatchedKvOperations_fullSync (msg : BatchedKVOperationMsg H) :
    ∃ worker', worker.handleBatchedKvOperations msg true = some (worker', false) ∧
      worker'.syncInfo = worker.syncInfo ∧ ∀ location, worker'.getKvKeys location =
        if msg.location = location then msg.operations.foldl applyOp (worker.getKvKeys location)
        else worker.getKvKeys location := by
  rw [handleBatchedKvOperations, Bool.not_true, Bool.and_false, if_neg (by simp)]
  refine ⟨_, rfl, rfl, fun location => ?_⟩
  simp only [getKvKeys]
  by_cases hlocation : msg.location = location
  · subst hlocation
    rw [if_pos rfl]
    by_cases hempty : msg.operations.foldl applyOp ((worker.kvStore.get? msg.location).getD ∅) = ∅
    · rw [if_pos hempty, get?_erase, if_pos rfl, hempty]
      rfl
    · rw [if_neg hempty, get?_set_self, Option.getD_some]
  · rw [if_neg hlocation]
    split_ifs
    · rw [get?_erase, if_neg hlocation]
    · rw [get?_set_ne _ _ hlocation]

theorem foldl_kvAdmit (keys : Finset H) (events : List (KVOpEvent H))
    (hops : ∀ op ∈ events, op.opType = .kvAdmit) :
    events.foldl applyOp keys = keys ∪ (events.map KVOpEvent.key).toFinset := by
  induction events generalizing keys with
  | nil => simp
  | cons op events ih =>
    have hop : applyOp keys op = insert op.key keys := by
      rw [applyOp, hops op mem_cons_self]
    rw [foldl_cons, hop, ih _ fun op' hop' => hops op' (mem_cons_of_mem _ hop')]
    ext key
    simp only [Finset.mem_union, Finset.mem_insert, mem_toFinset, map_cons, mem_cons]
    tauto

theorem isSome_findKeySimple (key : H) : (worker.findKeySimple key).isSome ↔ worker.Holds key := by
  simp only [findKeySimple, Option.isSome_map, find?_isSome, Holds, values,
    mem_map, decide_eq_true_eq]
  constructor
  · rintro ⟨p, hp, hkey⟩
    exact ⟨p.2, ⟨p, hp, rfl⟩, hkey⟩
  · rintro ⟨_, ⟨p, hp, rfl⟩, hkey⟩
    exact ⟨p, hp, hkey⟩

end WorkerNode

namespace InstanceNode

def create (instanceId : String) : InstanceNode W := ⟨instanceId, .empty⟩

variable (node : InstanceNode W)

def addWorker (workerId : ℕ) (worker : W) : InstanceNode W :=
  { node with workers := node.workers.set workerId worker }

def removeWorker (workerId : ℕ) : Option W × InstanceNode W :=
  (node.workers.get? workerId, { node with workers := node.workers.erase workerId })

def getWorker (workerId : ℕ) : Option W := node.workers.get? workerId

def hasWorkers : Bool := decide (0 < node.workers.items.length)

def findKeySimple (node : InstanceNode (WorkerNode H)) (key : H) : Option KVChunkInfo :=
  node.workers.items.findSome? fun p =>
    (p.2.findKeySimple key).map fun kvInfo => ⟨node.instanceId, p.1, kvInfo.location⟩

def Holds (node : InstanceNode (WorkerNode H)) (key : H) : Prop :=
  ∃ worker ∈ node.workers.values, worker.Holds key

instance (node : InstanceNode (WorkerNode H)) (key : H) : Decidable (node.Holds key) :=
  inferInstanceAs (Decidable (∃ worker ∈ node.workers.values, worker.Holds key))

theorem isSome_findKeySimple (node : InstanceNode (WorkerNode H)) (key : H) :
    (node.findKeySimple key).isSome ↔ node.Holds key := by
  simp only [findKeySimple, findSome?_isSome_iff, Option.isSome_map, Holds, values,
    mem_map, WorkerNode.isSome_findKeySimple]
  constructor
  · rintro ⟨p, hp, hkey⟩
    exact ⟨p.2, ⟨p, hp, rfl⟩, hkey⟩
  · rintro ⟨_, ⟨p, hp, rfl⟩, hkey⟩
    exact ⟨p, hp, hkey⟩

theorem instanceId_of_findKeySimple {node : InstanceNode (WorkerNode H)} {key : H}
    {kvInfo : KVChunkInfo} (h : node.findKeySimple key = some kvInfo) :
    kvInfo.instanceId = node.instanceId := by
  obtain ⟨p, _, hp⟩ := exists_of_findSome?_eq_some h
  obtain ⟨_, _, rfl⟩ := Option.map_eq_some_iff.mp hp
  rfl

end InstanceNode

namespace RegistryTree

section

variable {W : Type}

def empty : RegistryTree W := ⟨.empty, fun _ _ h => absurd h (by simp)⟩

variable (registry : RegistryTree W) (instanceId : String)

def getOrCreateInstance : InstanceNode W :=
  (registry.instances.get? instanceId).getD (.create instanceId)

def setInstance (node : InstanceNode W) : RegistryTree W where
  instances := registry.instances.set node.instanceId node
  ids instanceId other h := by
    rw [get?_set] at h
    split_ifs at h with hid
    · rw [← Option.some.inj h, hid]
    · exact registry.ids _ _ h

variable (workerId : ℕ)

def registerWorker (worker : W) : RegistryTree W :=
  registry.setInstance ((registry.getOrCreateInstance instanceId).addWorker workerId worker)

def getWorker (registry : RegistryTree W) (instanceId : String) (workerId : ℕ) : Option W :=
  (registry.instances.get? instanceId).bind fun node => node.getWorker workerId

def modifyWorker (f : W → W) : RegistryTree W :=
  match registry.instances.get? instanceId with
  | none => registry
  | some node =>
      match node.getWorker workerId with
      | none => registry
      | some worker => registry.setInstance (node.addWorker workerId (f worker))

theorem getWorker_setInstance (node : InstanceNode W) (instanceId : String) (workerId : ℕ) :
    (registry.setInstance node).getWorker instanceId workerId =
      if node.instanceId = instanceId then node.getWorker workerId
      else registry.getWorker instanceId workerId := by
  simp only [getWorker, setInstance, get?_set]
  split_ifs
  · rfl
  · rfl

theorem getWorker_registerWorker (worker : W) (instanceId' : String) (workerId' : ℕ) :
    (registry.registerWorker instanceId workerId worker).getWorker instanceId' workerId' =
      if instanceId = instanceId' ∧ workerId = workerId' then some worker
      else registry.getWorker instanceId' workerId' := by
  have hid : ((registry.getOrCreateInstance instanceId).addWorker workerId worker).instanceId =
      instanceId := by
    simp only [getOrCreateInstance, InstanceNode.addWorker]
    cases hnode : registry.instances.get? instanceId with
    | none => rfl
    | some node => exact registry.ids _ _ hnode
  have hold : (registry.getOrCreateInstance instanceId).getWorker workerId' =
      registry.getWorker instanceId workerId' := by
    simp only [getOrCreateInstance, getWorker]
    cases registry.instances.get? instanceId with
    | none => rfl
    | some node => rfl
  rw [registerWorker, getWorker_setInstance, hid]
  split_ifs with h1 h2 h2
  · rw [InstanceNode.addWorker, InstanceNode.getWorker, h2.2, get?_set_self]
  · have hne : workerId ≠ workerId' := fun h => h2 ⟨h1, h⟩
    rw [← h1, ← hold, InstanceNode.addWorker, InstanceNode.getWorker, get?_set_ne _ _ hne]
    rfl
  · exact absurd h2.1 h1
  · rfl

theorem getWorker_modifyWorker (f : W → W) (instanceId' : String) (workerId' : ℕ) :
    (registry.modifyWorker instanceId workerId f).getWorker instanceId' workerId' =
      if instanceId = instanceId' ∧ workerId = workerId' then
        (registry.getWorker instanceId workerId).map f
      else registry.getWorker instanceId' workerId' := by
  cases hnode : registry.instances.get? instanceId with
  | none =>
    have hnone : registry.getWorker instanceId workerId = none := by rw [getWorker, hnode]; rfl
    simp only [modifyWorker, hnode, hnone, Option.map_none]
    split_ifs with h
    · rw [← h.1, ← h.2, hnone]
    · rfl
  | some node =>
    have hnode' : registry.getWorker instanceId workerId = node.getWorker workerId := by
      rw [getWorker, hnode]
      rfl
    cases hworker : node.getWorker workerId with
    | none =>
      simp only [modifyWorker, hnode, hworker, hnode', Option.map_none]
      split_ifs with h
      · rw [← h.1, ← h.2, hnode', hworker]
      · rfl
    | some worker =>
      have hsame : registry.modifyWorker instanceId workerId f =
          registry.registerWorker instanceId workerId (f worker) := by
        simp only [modifyWorker, hnode, hworker, registerWorker, getOrCreateInstance, Option.getD_some]
      rw [hsame, getWorker_registerWorker, hnode', hworker, Option.map_some]

end

variable (registry : RegistryTree (WorkerNode H))

def findKv (key : H) (excludeInstanceId : Option String) : Option KVChunkInfo :=
  registry.instances.items.findSome? fun p =>
    if excludeInstanceId = some p.1 then none else p.2.findKeySimple key

def HeldBy (instanceId : String) (key : H) : Prop :=
  ∃ node, registry.instances.get? instanceId = some node ∧ node.Holds key

instance (registry : RegistryTree (WorkerNode H)) (instanceId : String) (key : H) :
    Decidable (registry.HeldBy instanceId key) :=
  match h : registry.instances.get? instanceId with
  | none => .isFalse (by simp [HeldBy, h])
  | some node => decidable_of_iff (node.Holds key) (by simp [HeldBy, h])

def firstHolder (key : H) : Option String :=
  (registry.instances.items.find? fun p => decide (p.2.Holds key)).map Prod.fst

variable (registry : RegistryTree (WorkerNode H)) (key : H)

theorem findKv_instanceId : (registry.findKv key none).map KVChunkInfo.instanceId =
    registry.firstHolder key := by
  obtain ⟨⟨items, hnodup⟩, hids⟩ := registry
  have hfiled : ∀ p ∈ items, p.2.instanceId = p.1 := fun p hp =>
    hids p.1 p.2 ((get?_eq_some_iff _ _ _).mpr hp)
  simp only [findKv, firstHolder, reduceCtorEq, if_false]
  clear hids hnodup
  induction items with
  | nil => rfl
  | cons p items ih =>
    rw [findSome?_cons, find?_cons]
    cases hfound : p.2.findKeySimple key with
    | none =>
      have hnot : ¬ p.2.Holds key := by
        rw [← InstanceNode.isSome_findKeySimple, hfound]
        simp
      simp only [hnot, decide_false]
      exact ih fun q hq => hfiled q (mem_cons_of_mem _ hq)
    | some kvInfo =>
      have hholds : p.2.Holds key := by
        rw [← InstanceNode.isSome_findKeySimple, hfound]
        rfl
      simp only [hholds, decide_true, Option.map_some]
      rw [InstanceNode.instanceId_of_findKeySimple hfound, hfiled p mem_cons_self]

theorem heldBy_of_firstHolder {instanceId : String}
    (h : registry.firstHolder key = some instanceId) : registry.HeldBy instanceId key := by
  obtain ⟨p, hp, rfl⟩ := Option.map_eq_some_iff.mp h
  have hholds := find?_some hp
  exact ⟨p.2, (get?_eq_some_iff _ _ _).mpr (mem_of_find?_eq_some hp), of_decide_eq_true hholds⟩

end RegistryTree

end LMCache
