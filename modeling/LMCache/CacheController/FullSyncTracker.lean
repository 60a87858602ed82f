import LMCache.CacheController.Registry

namespace LMCache

open Option WorkerNode

structure FullSyncStartMsg where
  instanceId : String
  workerId : ℕ
  location : String
  syncId : String
  totalKeys : ℕ
  batchCount : ℕ
  deriving DecidableEq, Repr

structure FullSyncBatchMsg (H : Type) where
  instanceId : String
  workerId : ℕ
  location : String
  syncId : String
  batchId : ℕ
  keys : List H
  deriving DecidableEq, Repr

structure FullSyncEndMsg where
  instanceId : String
  workerId : ℕ
  location : String
  syncId : String
  actualTotalKeys : ℕ
  deriving DecidableEq, Repr

structure FullSyncStatusMsg where
  instanceId : String
  workerId : ℕ
  syncId : String

structure FullSyncStartRetMsg where
  syncId : String
  accepted : Bool
  errorMsg : Option String

structure FullSyncStatusRetMsg where
  syncId : String
  isComplete : Bool
  missingBatches : List ℕ

variable {H : Type}

namespace FullSyncTracker

variable (registry : RegistryTree (WorkerNode H)) (instanceId : String) (workerId : ℕ)

def getSyncInfo : Option WorkerSyncInfo :=
  (registry.getWorker instanceId workerId).bind syncInfo

def setSyncInfo (syncInfo : Option WorkerSyncInfo) : Bool × RegistryTree (WorkerNode H) :=
  ((registry.getWorker instanceId workerId).isSome,
    registry.modifyWorker instanceId workerId fun worker => { worker with syncInfo := syncInfo })

variable (syncId : String)

def startSync (totalKeys batchCount : ℕ) : Bool × RegistryTree (WorkerNode H) :=
  if (getSyncInfo registry instanceId workerId).any
      fun info => info.state = .syncing ∧ info.syncId ≠ syncId then (false, registry)
  else setSyncInfo registry instanceId workerId
    (some ⟨syncId, .syncing, totalKeys, batchCount, ∅, 0⟩)

def receiveBatch (batchId keysCount : ℕ) : Bool × RegistryTree (WorkerNode H) :=
  match getSyncInfo registry instanceId workerId with
  | none => (false, registry)
  | some info =>
      if info.syncId ≠ syncId then (false, registry)
      else if info.state ≠ .syncing then (false, registry)
      else setSyncInfo registry instanceId workerId (some { info with
        receivedBatches := insert batchId info.receivedBatches
        receivedKeysCount := info.receivedKeysCount + keysCount })

def completeSync : Bool × RegistryTree (WorkerNode H) :=
  match getSyncInfo registry instanceId workerId with
  | none => (false, registry)
  | some info =>
      if info.syncId ≠ syncId then (false, registry)
      else setSyncInfo registry instanceId workerId (some { info with state := .completed })

def getMissingBatches : List ℕ :=
  match getSyncInfo registry instanceId workerId with
  | none => []
  | some info =>
      if info.syncId ≠ syncId then []
      else if info.state ≠ .syncing then []
      else (List.range info.expectedBatchCount).filter fun b => b ∉ info.receivedBatches

def isComplete : Bool :=
  (getSyncInfo registry instanceId workerId).any
    fun info => info.syncId = syncId ∧ info.state = .completed

end FullSyncTracker

namespace RegistryTree

variable [DecidableEq H]

def handleBatchedKvOperations (registry : RegistryTree (WorkerNode H))
    (msg : BatchedKVOperationMsg H) (isFullSync : Bool) : Bool × RegistryTree (WorkerNode H) :=
  match (registry.getWorker msg.instanceId msg.workerId).bind fun worker =>
      worker.handleBatchedKvOperations msg isFullSync with
  | none => (false, registry)
  | some handled =>
      (true, registry.modifyWorker msg.instanceId msg.workerId fun _ => handled.1)

def getWorkerKvKeys (registry : RegistryTree (WorkerNode H)) (instanceId : String) (workerId : ℕ)
    (location : String) : Finset H :=
  ((registry.getWorker instanceId workerId).map fun worker => worker.getKvKeys location).getD ∅

def clearWorkerKv (registry : RegistryTree (WorkerNode H)) (instanceId : String) (workerId : ℕ)
    (location : Option String) : Bool × RegistryTree (WorkerNode H) :=
  ((registry.getWorker instanceId workerId).isSome,
    registry.modifyWorker instanceId workerId fun worker => worker.clearKv location)

end RegistryTree

namespace KVController

open FullSyncTracker

variable [DecidableEq H] (registry : RegistryTree (WorkerNode H))

def handleFullSyncStart (msg : FullSyncStartMsg) :
    FullSyncStartRetMsg × RegistryTree (WorkerNode H) :=
  let started := startSync registry msg.instanceId msg.workerId msg.syncId msg.totalKeys
    msg.batchCount
  if started.1 then
    let existingKeys := started.2.getWorkerKvKeys msg.instanceId msg.workerId msg.location
    (⟨msg.syncId, true, none⟩,
      if existingKeys = ∅ then started.2
      else (started.2.clearWorkerKv msg.instanceId msg.workerId (some msg.location)).2)
  else
    (⟨msg.syncId, false, some ("Failed to start sync: worker already syncing with " ++
      "different sync_id or worker not found")⟩, registry)

def batchOperations (keys : List H) : List (KVOpEvent H) :=
  keys.zipIdx.map fun p => ⟨.kvAdmit, p.1, p.2⟩

def handleFullSyncBatch (msg : FullSyncBatchMsg H) : RegistryTree (WorkerNode H) :=
  let received := receiveBatch registry msg.instanceId msg.workerId msg.syncId msg.batchId
    msg.keys.length
  if received.1 then
    let operations := batchOperations msg.keys
    if operations.isEmpty then received.2
    else (received.2.handleBatchedKvOperations
      ⟨msg.instanceId, msg.workerId, msg.location, operations⟩ true).2
  else registry

def handleFullSyncEnd (msg : FullSyncEndMsg) : RegistryTree (WorkerNode H) :=
  (completeSync registry msg.instanceId msg.workerId msg.syncId).2

def handleFullSyncStatus (msg : FullSyncStatusMsg) : FullSyncStatusRetMsg :=
  ⟨msg.syncId, isComplete registry msg.instanceId msg.workerId msg.syncId,
    getMissingBatches registry msg.instanceId msg.workerId msg.syncId⟩

end KVController

namespace WorkerNode

variable [DecidableEq H]

def started (msg : FullSyncStartMsg) (worker : WorkerNode H) : WorkerNode H :=
  if worker.syncInfo.any fun info => info.state = .syncing ∧ info.syncId ≠ msg.syncId then worker
  else
    { (if worker.getKvKeys msg.location = ∅ then worker else worker.clearKv (some msg.location)) with
      syncInfo := some ⟨msg.syncId, .syncing, msg.totalKeys, msg.batchCount, ∅, 0⟩ }

def received (msg : FullSyncBatchMsg H) (worker : WorkerNode H) : WorkerNode H :=
  match worker.syncInfo with
  | none => worker
  | some info =>
      if info.syncId ≠ msg.syncId ∨ info.state ≠ .syncing then worker
      else
        let worker : WorkerNode H := { worker with
          syncInfo := some { info with
            receivedBatches := insert msg.batchId info.receivedBatches
            receivedKeysCount := info.receivedKeysCount + msg.keys.length } }
        if msg.keys = [] then worker
        else ((worker.handleBatchedKvOperations ⟨msg.instanceId, msg.workerId, msg.location,
          KVController.batchOperations msg.keys⟩ true).map Prod.fst).getD worker

def completed (msg : FullSyncEndMsg) (worker : WorkerNode H) : WorkerNode H :=
  match worker.syncInfo with
  | none => worker
  | some info =>
      if info.syncId ≠ msg.syncId then worker
      else { worker with syncInfo := some { info with state := .completed } }

theorem syncInfo_started (msg : FullSyncStartMsg) (worker : WorkerNode H) :
    worker.started msg = worker ∨
      (worker.started msg).syncInfo =
          some ⟨msg.syncId, .syncing, msg.totalKeys, msg.batchCount, ∅, 0⟩ ∧
        (worker.started msg).getKvKeys msg.location = ∅ := by
  rw [started]
  split_ifs with hreject hempty
  · exact .inl rfl
  · exact .inr ⟨rfl, hempty⟩
  · exact .inr ⟨rfl, worker.getKvKeys_clearKv msg.location⟩

theorem syncInfo_received (msg : FullSyncBatchMsg H) (worker : WorkerNode H) :
    worker.received msg = worker ∨
      ∃ info, worker.syncInfo = some info ∧ info.syncId = msg.syncId ∧ info.state = .syncing ∧
        (worker.received msg).syncInfo = some { info with
          receivedBatches := insert msg.batchId info.receivedBatches
          receivedKeysCount := info.receivedKeysCount + msg.keys.length } ∧
        ∀ key, key ∈ (worker.received msg).getKvKeys msg.location ↔
          key ∈ worker.getKvKeys msg.location ∨ key ∈ msg.keys := by
  cases hsync : worker.syncInfo with
  | none => exact .inl (by rw [received, hsync])
  | some info =>
    by_cases hskip : info.syncId ≠ msg.syncId ∨ info.state ≠ .syncing
    · exact .inl (by simp only [received, hsync, if_pos hskip])
    · obtain ⟨hid, hstate⟩ := not_or.mp hskip
      refine .inr ⟨info, rfl, not_not.mp hid, not_not.mp hstate, ?_⟩
      simp only [received, hsync, if_neg hskip]
      by_cases hkeys : msg.keys = []
      · simp only [if_pos hkeys]
        refine ⟨trivial, fun key => ?_⟩
        rw [hkeys]
        simp [getKvKeys]
      · obtain ⟨merged, hmerged, hinfo, hstore⟩ := handleBatchedKvOperations_fullSync
          { worker with
            syncInfo := some { info with
              receivedBatches := insert msg.batchId info.receivedBatches
              receivedKeysCount := info.receivedKeysCount + msg.keys.length } }
          ⟨msg.instanceId, msg.workerId, msg.location, KVController.batchOperations msg.keys⟩
        simp only [if_neg hkeys, hmerged, map_some, getD_some]
        refine ⟨hinfo, fun key => ?_⟩
        have hops : ∀ op ∈ KVController.batchOperations msg.keys, op.opType = .kvAdmit := by
          intro op hop
          obtain ⟨p, _, rfl⟩ := List.mem_map.mp hop
          rfl
        have hkeysOf : (KVController.batchOperations msg.keys).map KVOpEvent.key = msg.keys := by
          rw [KVController.batchOperations, List.map_map]
          exact List.zipIdx_map_fst 0 msg.keys
        rw [hstore, if_pos rfl, foldl_kvAdmit _ _ hops, hkeysOf, Finset.mem_union, List.mem_toFinset]
        exact Iff.rfl

omit [DecidableEq H] in
theorem completed_of_syncId {msg : FullSyncEndMsg} {worker : WorkerNode H} {info : WorkerSyncInfo}
    (hsync : worker.syncInfo = some info) (hid : info.syncId = msg.syncId) :
    worker.completed msg = { worker with syncInfo := some { info with state := .completed } } := by
  have hnot : ¬ info.syncId ≠ msg.syncId := not_not.mpr hid
  simp only [completed, hsync, if_neg hnot]

omit [DecidableEq H] in
theorem syncInfo_completed (msg : FullSyncEndMsg) (worker : WorkerNode H) :
    worker.completed msg = worker ∨
      ∃ info, worker.syncInfo = some info ∧ info.syncId = msg.syncId ∧
        worker.completed msg = { worker with syncInfo := some { info with state := .completed } } := by
  cases hsync : worker.syncInfo with
  | none => exact .inl (by rw [completed, hsync])
  | some info =>
    by_cases hid : info.syncId = msg.syncId
    · exact .inr ⟨info, rfl, hid, completed_of_syncId hsync hid⟩
    · exact .inl (by simp only [completed, hsync, ne_eq, if_pos hid])

end WorkerNode

def ActsOn (registry registry' : RegistryTree (WorkerNode H)) (instanceId : String) (workerId : ℕ)
    (f : WorkerNode H → WorkerNode H) : Prop :=
  ∀ instanceId' workerId', registry'.getWorker instanceId' workerId' =
    if instanceId = instanceId' ∧ workerId = workerId' then
      (registry.getWorker instanceId workerId).map f
    else registry.getWorker instanceId' workerId'

variable {registry registry' registry'' : RegistryTree (WorkerNode H)} {instanceId : String}
  {workerId : ℕ} {f g : WorkerNode H → WorkerNode H}

theorem ActsOn.self (h : ActsOn registry registry' instanceId workerId f) :
    registry'.getWorker instanceId workerId = (registry.getWorker instanceId workerId).map f := by
  rw [h, if_pos ⟨rfl, rfl⟩]

theorem ActsOn.modify (registry : RegistryTree (WorkerNode H)) (instanceId : String)
    (workerId : ℕ) (f : WorkerNode H → WorkerNode H) :
    ActsOn registry (registry.modifyWorker instanceId workerId f) instanceId workerId f :=
  registry.getWorker_modifyWorker instanceId workerId f

theorem ActsOn.of_eq (h : (registry.getWorker instanceId workerId).map f =
    registry.getWorker instanceId workerId) : ActsOn registry registry instanceId workerId f := by
  intro instanceId' workerId'
  split_ifs with hsame
  · rw [h, hsame.1, hsame.2]
  · rfl

theorem ActsOn.trans (hf : ActsOn registry registry' instanceId workerId f)
    (hg : ActsOn registry' registry'' instanceId workerId g) :
    ActsOn registry registry'' instanceId workerId (g ∘ f) := by
  intro instanceId' workerId'
  rw [hg]
  split_ifs with hsame
  · rw [hf.self, map_map]
  · rw [hf, if_neg hsame]

theorem ActsOn.congr (hf : ActsOn registry registry' instanceId workerId f)
    (h : ∀ worker, registry.getWorker instanceId workerId = some worker → f worker = g worker) :
    ActsOn registry registry' instanceId workerId g := by
  intro instanceId' workerId'
  rw [hf]
  split_ifs
  · cases hworker : registry.getWorker instanceId workerId with
    | none => rfl
    | some worker => rw [map_some, map_some, h worker hworker]
  · rfl

section

open FullSyncTracker

theorem getSyncInfo_of_worker {worker : WorkerNode H}
    (h : registry.getWorker instanceId workerId = some worker) :
    getSyncInfo registry instanceId workerId = worker.syncInfo := by
  rw [getSyncInfo, h, bind_some]

theorem getSyncInfo_of_none (h : registry.getWorker instanceId workerId = none) :
    getSyncInfo registry instanceId workerId = none := by
  rw [getSyncInfo, h, bind_none]

theorem actsOn_setSyncInfo (registry : RegistryTree (WorkerNode H)) (instanceId : String)
    (workerId : ℕ) (syncInfo : Option WorkerSyncInfo) :
    ActsOn registry (setSyncInfo registry instanceId workerId syncInfo).2 instanceId workerId
      fun worker => { worker with syncInfo := syncInfo } := ActsOn.modify _ _ _ _

variable [DecidableEq H]

theorem actsOn_handleFullSyncStart (registry : RegistryTree (WorkerNode H))
    (msg : FullSyncStartMsg) :
    ActsOn registry (KVController.handleFullSyncStart registry msg).2 msg.instanceId msg.workerId
      (started msg) := by
  cases hworker : registry.getWorker msg.instanceId msg.workerId with
  | none =>
    simp only [KVController.handleFullSyncStart, startSync, getSyncInfo_of_none hworker,
      any_none, Bool.false_eq_true, if_false, setSyncInfo, hworker, isSome_none]
    exact ActsOn.of_eq (by rw [hworker]; rfl)
  | some worker =>
    rw [KVController.handleFullSyncStart, startSync, getSyncInfo_of_worker hworker]
    by_cases hreject : (worker.syncInfo.any fun info =>
        decide (info.state = .syncing ∧ info.syncId ≠ msg.syncId)) = true
    · simp only [if_pos hreject, Bool.false_eq_true, if_false]
      refine ActsOn.of_eq ?_
      rw [hworker, map_some, started, if_pos hreject]
    · simp only [if_neg hreject]
      have hset := actsOn_setSyncInfo registry msg.instanceId msg.workerId
        (some ⟨msg.syncId, .syncing, msg.totalKeys, msg.batchCount, ∅, 0⟩)
      have htrue : (setSyncInfo registry msg.instanceId msg.workerId
          (some ⟨msg.syncId, .syncing, msg.totalKeys, msg.batchCount, ∅, 0⟩)).1 = true := by
        rw [setSyncInfo, hworker]
        rfl
      have hkeys : (setSyncInfo registry msg.instanceId msg.workerId
          (some ⟨msg.syncId, .syncing, msg.totalKeys, msg.batchCount, ∅, 0⟩)).2.getWorkerKvKeys
            msg.instanceId msg.workerId msg.location = worker.getKvKeys msg.location := by
        rw [RegistryTree.getWorkerKvKeys, hset.self, hworker]
        rfl
      rw [htrue, if_pos rfl, hkeys]
      by_cases hempty : worker.getKvKeys msg.location = ∅
      · rw [if_pos hempty]
        refine hset.congr fun worker' hworker' => ?_
        obtain rfl := some.inj (hworker.symm.trans hworker')
        rw [started, if_neg hreject, if_pos hempty]
      · rw [if_neg hempty]
        refine (hset.trans (ActsOn.modify _ _ _ _)).congr fun worker' hworker' => ?_
        obtain rfl := some.inj (hworker.symm.trans hworker')
        rw [started, if_neg hreject, if_neg hempty]
        rfl

omit [DecidableEq H] in
theorem actsOn_handleFullSyncEnd (registry : RegistryTree (WorkerNode H)) (msg : FullSyncEndMsg) :
    ActsOn registry (KVController.handleFullSyncEnd registry msg) msg.instanceId msg.workerId
      (completed msg) := by
  rw [KVController.handleFullSyncEnd, completeSync]
  cases hworker : registry.getWorker msg.instanceId msg.workerId with
  | none =>
    rw [getSyncInfo_of_none hworker]
    exact ActsOn.of_eq (by rw [hworker]; rfl)
  | some worker =>
    rw [getSyncInfo_of_worker hworker]
    cases hinfo : worker.syncInfo with
    | none => exact ActsOn.of_eq (by rw [hworker, map_some, completed, hinfo])
    | some info =>
      by_cases hid : info.syncId ≠ msg.syncId
      · simp only [if_pos hid]
        refine ActsOn.of_eq ?_
        rw [hworker, map_some]
        simp only [completed, hinfo, if_pos hid]
      · simp only [if_neg hid]
        refine (actsOn_setSyncInfo _ _ _ _).congr fun worker' hworker' => ?_
        obtain rfl := some.inj (hworker.symm.trans hworker')
        simp only [completed, hinfo, if_neg hid]

theorem actsOn_handleFullSyncBatch (registry : RegistryTree (WorkerNode H))
    (msg : FullSyncBatchMsg H) :
    ActsOn registry (KVController.handleFullSyncBatch registry msg) msg.instanceId msg.workerId
      (received msg) := by
  cases hworker : registry.getWorker msg.instanceId msg.workerId with
  | none =>
    simp only [KVController.handleFullSyncBatch, receiveBatch, getSyncInfo_of_none hworker,
      Bool.false_eq_true, if_false]
    exact ActsOn.of_eq (by rw [hworker]; rfl)
  | some worker =>
    have hinfo := getSyncInfo_of_worker hworker
    cases hsync : worker.syncInfo with
    | none =>
      rw [hsync] at hinfo
      simp only [KVController.handleFullSyncBatch, receiveBatch, hinfo, Bool.false_eq_true, if_false]
      exact ActsOn.of_eq (by rw [hworker, map_some, received, hsync])
    | some info =>
      rw [hsync] at hinfo
      by_cases hskip : info.syncId ≠ msg.syncId ∨ info.state ≠ .syncing
      · have hrejected : receiveBatch registry msg.instanceId msg.workerId msg.syncId msg.batchId
            msg.keys.length = (false, registry) := by
          simp only [receiveBatch, hinfo]
          split_ifs with hid hstate
          · rfl
          · rfl
          · exact absurd hskip (not_or.mpr ⟨hid, hstate⟩)
        simp only [KVController.handleFullSyncBatch, hrejected, Bool.false_eq_true, if_false]
        refine ActsOn.of_eq ?_
        rw [hworker, map_some]
        simp only [received, hsync, if_pos hskip]
      · obtain ⟨hid, hstate⟩ := not_or.mp hskip
        generalize hnew : ({ info with
          receivedBatches := insert msg.batchId info.receivedBatches
          receivedKeysCount := info.receivedKeysCount + msg.keys.length } : WorkerSyncInfo) = info'
        have hset := actsOn_setSyncInfo registry msg.instanceId msg.workerId (some info')
        have hrecorded : receiveBatch registry msg.instanceId msg.workerId msg.syncId msg.batchId
            msg.keys.length = (true, (setSyncInfo registry msg.instanceId msg.workerId
              (some info')).2) := by
          simp only [receiveBatch, hinfo, if_neg hid, if_neg hstate, setSyncInfo, hworker, hnew,
            isSome_some]
        have hworker' := hset.self
        rw [hworker, map_some] at hworker'
        simp only [KVController.handleFullSyncBatch, hrecorded, if_true]
        by_cases hkeys : msg.keys = []
        · have hnone : (KVController.batchOperations msg.keys).isEmpty = true := by
            rw [hkeys]
            rfl
          rw [if_pos hnone]
          refine hset.congr fun other hother => ?_
          obtain rfl := some.inj (hworker.symm.trans hother)
          simp only [received, hsync, if_neg hskip, if_pos hkeys, hnew]
        · have hsome : ¬ (KVController.batchOperations msg.keys).isEmpty = true := by
            cases hlist : msg.keys with
            | nil => exact absurd hlist hkeys
            | cons key keys => simp [KVController.batchOperations, List.zipIdx_cons]
          obtain ⟨merged, hmerged, _⟩ := handleBatchedKvOperations_fullSync
            { worker with syncInfo := some info' } ⟨msg.instanceId, msg.workerId, msg.location,
              KVController.batchOperations msg.keys⟩
          rw [if_neg hsome, RegistryTree.handleBatchedKvOperations, hworker', bind_some, hmerged]
          refine (hset.trans (ActsOn.modify _ _ _ _)).congr fun other hother => ?_
          obtain rfl := some.inj (hworker.symm.trans hother)
          simp only [received, hsync, if_neg hskip, if_neg hkeys, hnew, hmerged,
            map_some, getD_some, Function.comp_apply]

end

end LMCache
