import LMCache.CacheController.FullSyncTracker
import LMCache.Foundations.Execution

namespace LMCache

open Option WorkerNode Dict KVOpEvent List

variable {H : Type}

namespace RegistryTree

variable {W : Type}

def deregisterWorker (registry : RegistryTree W) (instanceId : String) (workerId : ℕ) :
    Option W × RegistryTree W :=
  match registry.instances.get? instanceId with
  | none => (none, registry)
  | some node =>
      let removed := node.removeWorker workerId
      (removed.1,
        if removed.2.hasWorkers then registry.setInstance removed.2
        else { instances := registry.instances.erase instanceId
               ids := forall_erase registry.ids instanceId })

theorem getWorker_deregisterWorker (registry : RegistryTree W) (instanceId : String)
    (workerId : ℕ) (instanceId' : String) (workerId' : ℕ) :
    (registry.deregisterWorker instanceId workerId).2.getWorker instanceId' workerId' =
      if instanceId = instanceId' ∧ workerId = workerId' then none
      else registry.getWorker instanceId' workerId' := by
  rw [deregisterWorker]
  cases hnode : registry.instances.get? instanceId with
  | none =>
    split_ifs with hsame
    · rw [← hsame.1, getWorker, hnode, bind_none]
    · rfl
  | some node =>
    have hid : (node.removeWorker workerId).2.instanceId = instanceId := by
      rw [← registry.ids _ _ hnode]
      rfl
    have hleft : (node.removeWorker workerId).2.getWorker workerId' =
        if workerId = workerId' then none else node.getWorker workerId' :=
      get?_erase _ _ _
    have hbefore : registry.getWorker instanceId workerId' = node.getWorker workerId' := by
      rw [getWorker, hnode, bind_some]
    by_cases hinstance : instanceId = instanceId'
    · subst hinstance
      simp only [true_and, hbefore]
      rw [← hleft]
      by_cases hworkers : (node.removeWorker workerId).2.hasWorkers = true
      · simp only [if_pos hworkers]
        rw [getWorker_setInstance, if_pos hid]
      · have hitems : (node.removeWorker workerId).2.workers.items = [] := by
          simpa [InstanceNode.hasWorkers] using hworkers
        have hnone : (node.removeWorker workerId).2.getWorker workerId' = none := by
          rw [InstanceNode.getWorker, get?, hitems, lookup_nil]
        simp only [if_neg hworkers]
        rw [hnone, getWorker, get?_erase, if_pos rfl, bind_none]
    · rw [if_neg fun hsame => hinstance hsame.1]
      dsimp only
      split_ifs
      · rw [getWorker_setInstance, hid, if_neg hinstance]
      · rw [getWorker, get?_erase, if_neg hinstance, getWorker]

end RegistryTree

structure KvRegistry (H : Type) where
  tree : RegistryTree (WorkerNode H)
  seqDiscontinuityCount : ℕ

inductive RegistryRequest (H : Type)
  | registerWorker (instanceId : String) (workerId : ℕ)
  | deregisterWorker (instanceId : String) (workerId : ℕ)
  | handleBatchedKvOperations (msg : BatchedKVOperationMsg H) (isFullSync : Bool)
  | setSyncInfo (instanceId : String) (workerId : ℕ) (syncInfo : Option WorkerSyncInfo)
  | clearWorkerKv (instanceId : String) (workerId : ℕ) (location : Option String)

-- what one worker has been told, location by location, since it registered or was cleared
structure WorkerHistory (H : Type) where
  operations : String → List (KVOpEvent H)
  seqNums : String → List ℕ

structure RegistryHistory (H : Type) where
  workers : String → ℕ → WorkerHistory H
  discontinuities : ℕ

def Consecutive (seqNums : List ℕ) : Prop := seqNums.IsChain fun last next => next = last + 1

instance (seqNums : List ℕ) : Decidable (Consecutive seqNums) :=
  inferInstanceAs (Decidable (seqNums.IsChain fun last next => next = last + 1))

namespace WorkerHistory

def empty : WorkerHistory H := ⟨fun _ => [], fun _ => []⟩

def accept (history : WorkerHistory H) (msg : BatchedKVOperationMsg H) (isFullSync : Bool) :
    WorkerHistory H where
  operations location :=
    if msg.location = location then history.operations location ++ msg.operations
    else history.operations location
  seqNums location :=
    if msg.location = location ∧ isFullSync = false then
      history.seqNums location ++ msg.operations.map seqNum
    else history.seqNums location

def clear (history : WorkerHistory H) (cleared : Option String) : WorkerHistory H where
  operations location :=
    if cleared.all (fun l => l = location) then [] else history.operations location
  seqNums location := if cleared.all (fun l => l = location) then [] else history.seqNums location

def Discontinuous (history : WorkerHistory H) (msg : BatchedKVOperationMsg H) : Prop :=
  ¬ Consecutive ((history.seqNums msg.location).getLast?.toList ++
    msg.operations.map seqNum)

instance (history : WorkerHistory H) (msg : BatchedKVOperationMsg H) :
    Decidable (history.Discontinuous msg) :=
  inferInstanceAs (Decidable (¬ Consecutive _))

variable [DecidableEq H]

def keys (history : WorkerHistory H) (location : String) : Finset H :=
  (history.operations location).foldl applyOp ∅

end WorkerHistory

namespace KvRegistry

def create : KvRegistry H := ⟨.empty, 0⟩

def getWorker (s : KvRegistry H) (instanceId : String) (workerId : ℕ) : Option (WorkerNode H) :=
  s.tree.getWorker instanceId workerId

def Syncing (s : KvRegistry H) (instanceId : String) (workerId : ℕ) : Prop :=
  ∃ worker, s.getWorker instanceId workerId = some worker ∧ worker.isSyncing = true

variable [DecidableEq H]

def handleBatchedKvOperations (s : KvRegistry H) (msg : BatchedKVOperationMsg H)
    (isFullSync : Bool) : Bool × KvRegistry H :=
  let handled := s.tree.handleBatchedKvOperations msg isFullSync
  let outOfOrder := (((s.getWorker msg.instanceId msg.workerId).bind fun worker =>
    worker.handleBatchedKvOperations msg isFullSync).map Prod.snd).getD false
  (handled.1, ⟨handled.2, s.seqDiscontinuityCount + if outOfOrder then 1 else 0⟩)

def exec (s : KvRegistry H) : RegistryRequest H → KvRegistry H
  | .registerWorker instanceId workerId =>
      { s with tree := s.tree.registerWorker instanceId workerId (.create workerId) }
  | .deregisterWorker instanceId workerId =>
      { s with tree := (s.tree.deregisterWorker instanceId workerId).2 }
  | .handleBatchedKvOperations msg isFullSync => (s.handleBatchedKvOperations msg isFullSync).2
  | .setSyncInfo instanceId workerId syncInfo =>
      { s with tree := (FullSyncTracker.setSyncInfo s.tree instanceId workerId syncInfo).2 }
  | .clearWorkerKv instanceId workerId location =>
      { s with tree := (s.tree.clearWorkerKv instanceId workerId location).2 }

end KvRegistry

namespace RegistryHistory

def empty : RegistryHistory H := ⟨fun _ _ => .empty, 0⟩

def modify (history : RegistryHistory H) (instanceId : String) (workerId : ℕ)
    (f : WorkerHistory H → WorkerHistory H) : RegistryHistory H :=
  { history with
    workers := fun instanceId' workerId' =>
      if instanceId = instanceId' ∧ workerId = workerId' then f (history.workers instanceId workerId)
      else history.workers instanceId' workerId' }

variable [DecidableEq H]

def record (history : RegistryHistory H) (s : KvRegistry H) : RegistryRequest H → RegistryHistory H
  | .registerWorker instanceId workerId => history.modify instanceId workerId fun _ => .empty
  | .deregisterWorker _ _ => history
  | .handleBatchedKvOperations msg isFullSync =>
      if (s.handleBatchedKvOperations msg isFullSync).1 then
        let discontinuous := isFullSync = false ∧
          (history.workers msg.instanceId msg.workerId).Discontinuous msg
        { history.modify msg.instanceId msg.workerId fun worker => worker.accept msg isFullSync with
          discontinuities := history.discontinuities + if discontinuous then 1 else 0 }
      else history
  | .setSyncInfo _ _ _ => history
  | .clearWorkerKv instanceId workerId location =>
      history.modify instanceId workerId fun worker => worker.clear location

end RegistryHistory

namespace WorkerNode

variable [DecidableEq H] {worker worker' : WorkerNode H} {history : WorkerHistory H}

theorem consecutive_append_cons (last : Option ℕ) (seqNum : ℕ) (seqNums : List ℕ) :
    Consecutive (last.toList ++ seqNum :: seqNums) ↔
      (∀ l, last = some l → seqNum = l + 1) ∧ Consecutive (seqNum :: seqNums) := by
  cases last with
  | none => simp
  | some l => simp [Consecutive]

omit [DecidableEq H] in
theorem get?_foldl_trackSeq (location : String) (tracked : Dict String ℕ × Bool)
    (operations : List (KVOpEvent H)) (location' : String) :
    (operations.foldl (trackSeq location) tracked).1.get? location' =
      if location = location' then
        (operations.map seqNum).getLast?.or (tracked.1.get? location')
      else tracked.1.get? location' := by
  induction operations generalizing tracked with
  | nil => simp
  | cons op operations ih =>
    rw [foldl_cons, ih, trackSeq, get?_set]
    split_ifs with hlocation
    · rw [map_cons, getLast?_cons]
      cases (operations.map seqNum).getLast? with
      | none => rfl
      | some last => rfl
    · rfl

omit [DecidableEq H] in
theorem outOfOrder_foldl_trackSeq (location : String) (tracked : Dict String ℕ × Bool)
    (operations : List (KVOpEvent H)) :
    (operations.foldl (trackSeq location) tracked).2 = true ↔ tracked.2 = true ∨
      ¬ Consecutive ((tracked.1.get? location).toList ++ operations.map seqNum) := by
  induction operations generalizing tracked with
  | nil =>
    have hone : Consecutive (tracked.1.get? location).toList := by
      cases tracked.1.get? location with
      | none => exact List.IsChain.nil
      | some last => exact List.IsChain.singleton last
    simp [hone]
  | cons op operations ih =>
    have hgap : ((tracked.1.get? location).any fun last => decide (op.seqNum ≠ last + 1)) = true ↔
        ¬ ∀ last, tracked.1.get? location = some last → op.seqNum = last + 1 := by
      cases tracked.1.get? location with
      | none => simp
      | some last => simp
    rw [foldl_cons, ih, map_cons, consecutive_append_cons, not_and_or, ← hgap]
    simp only [trackSeq, get?_set_self, toList_some, singleton_append, Bool.or_eq_true]
    exact or_assoc

structure Recounts (worker : WorkerNode H) (history : WorkerHistory H) : Prop where
  stored : ∀ location, worker.kvStore.get? location =
    if history.keys location = ∅ then none else some (history.keys location)
  tracked : ∀ location, worker.seqTracker.get? location = (history.seqNums location).getLast?

theorem recounts_create (workerId : ℕ) : (create workerId : WorkerNode H).Recounts .empty where
  stored _ := (if_pos rfl).symm
  tracked _ := rfl

theorem Recounts.getKvKeys (h : worker.Recounts history) (location : String) :
    worker.getKvKeys location = history.keys location := by
  rw [WorkerNode.getKvKeys, h.stored]
  split_ifs with hempty
  · exact hempty.symm
  · rfl

theorem Recounts.clearKv (h : worker.Recounts history) (cleared : Option String) :
    (worker.clearKv cleared).Recounts (history.clear cleared) := by
  cases cleared with
  | none =>
    exact ⟨fun location => by simp [WorkerNode.clearKv, WorkerHistory.keys, WorkerHistory.clear],
      fun location => by simp [WorkerNode.clearKv, WorkerHistory.clear]⟩
  | some cleared =>
    constructor
    · intro location
      simp only [WorkerNode.clearKv, get?_erase, WorkerHistory.keys, WorkerHistory.clear,
        all_some, decide_eq_true_eq]
      split_ifs with hcleared hempty hempty
      · rfl
      · exact absurd rfl hempty
      · exact (h.stored location).trans (if_pos hempty)
      · exact (h.stored location).trans (if_neg hempty)
    · intro location
      simp only [WorkerNode.clearKv, get?_erase, WorkerHistory.clear, all_some, decide_eq_true_eq]
      split_ifs
      · rfl
      · exact h.tracked location

theorem handleBatchedKvOperations_eq_none_iff (msg : BatchedKVOperationMsg H) (isFullSync : Bool) :
    worker.handleBatchedKvOperations msg isFullSync = none ↔
      worker.isSyncing = true ∧ isFullSync = false := by
  rw [handleBatchedKvOperations]
  split_ifs with hrejected
  · simpa using hrejected
  · simpa using hrejected

theorem of_handleBatchedKvOperations {msg : BatchedKVOperationMsg H} {isFullSync gap : Bool}
    (hhandled : worker.handleBatchedKvOperations msg isFullSync = some (worker', gap)) :
    worker'.syncInfo = worker.syncInfo ∧
      worker'.kvStore = (if msg.operations.foldl applyOp (worker.getKvKeys msg.location) = ∅ then
        worker.kvStore.erase msg.location
        else worker.kvStore.set msg.location
          (msg.operations.foldl applyOp (worker.getKvKeys msg.location))) ∧
      (worker'.seqTracker, gap) = (if isFullSync then (worker.seqTracker, false)
        else msg.operations.foldl (trackSeq msg.location) (worker.seqTracker, false)) := by
  rw [handleBatchedKvOperations] at hhandled
  by_cases hrejected : (worker.isSyncing && !isFullSync) = true
  · rw [if_pos hrejected] at hhandled
    cases hhandled
  · rw [if_neg hrejected] at hhandled
    cases hhandled
    exact ⟨rfl, rfl, rfl⟩

theorem Recounts.stored_accept (h : worker.Recounts history) {msg : BatchedKVOperationMsg H}
    {isFullSync gap : Bool}
    (hhandled : worker.handleBatchedKvOperations msg isFullSync = some (worker', gap))
    (location : String) : worker'.kvStore.get? location =
      if (history.accept msg isFullSync).keys location = ∅ then none
      else some ((history.accept msg isFullSync).keys location) := by
  obtain ⟨_, hstore, _⟩ := of_handleBatchedKvOperations hhandled
  rw [hstore, h.getKvKeys]
  by_cases hlocation : msg.location = location
  · subst hlocation
    have hfold : (history.accept msg isFullSync).keys msg.location =
        msg.operations.foldl applyOp (history.keys msg.location) := by
      simp only [WorkerHistory.keys, WorkerHistory.accept, if_true, foldl_append]
    rw [hfold]
    split_ifs
    · rw [get?_erase, if_pos rfl]
    · rw [get?_set_self]
  · have hsame : (history.accept msg isFullSync).keys location = history.keys location := by
      simp only [WorkerHistory.keys, WorkerHistory.accept, if_neg hlocation]
    rw [hsame, ← h.stored]
    split_ifs
    · rw [get?_erase, if_neg hlocation]
    · rw [get?_set_ne _ _ hlocation]

theorem Recounts.accept (h : worker.Recounts history) {msg : BatchedKVOperationMsg H}
    {isFullSync gap : Bool}
    (hhandled : worker.handleBatchedKvOperations msg isFullSync = some (worker', gap)) :
    worker'.Recounts (history.accept msg isFullSync) ∧
      (gap = true ↔ isFullSync = false ∧ history.Discontinuous msg) := by
  obtain ⟨_, _, htracked⟩ := of_handleBatchedKvOperations hhandled
  cases isFullSync with
  | true =>
    obtain ⟨hseq, rfl⟩ := Prod.mk.injEq _ _ _ _ ▸ htracked
    refine ⟨⟨h.stored_accept hhandled, fun location => ?_⟩, by simp⟩
    rw [hseq, h.tracked]
    simp [WorkerHistory.accept]
  | false =>
    rw [if_neg Bool.false_ne_true] at htracked
    refine ⟨⟨h.stored_accept hhandled, fun location => ?_⟩, ?_⟩
    · have hseq : worker'.seqTracker =
          (msg.operations.foldl (trackSeq msg.location) (worker.seqTracker, false)).1 :=
        congrArg Prod.fst htracked
      rw [hseq, get?_foldl_trackSeq, h.tracked]
      simp only [WorkerHistory.accept, and_true]
      split_ifs
      · rw [getLast?_append]
      · rfl
    · have hgap : gap =
          (msg.operations.foldl (trackSeq msg.location) (worker.seqTracker, false)).2 :=
        congrArg Prod.snd htracked
      rw [hgap, outOfOrder_foldl_trackSeq, h.tracked, WorkerHistory.Discontinuous]
      simp

omit [DecidableEq H] in
theorem holds_iff (worker : WorkerNode H) (key : H) :
    worker.Holds key ↔ ∃ location, key ∈ worker.getKvKeys location := by
  constructor
  · rintro ⟨keys, hkeys, hkey⟩
    obtain ⟨⟨location, _⟩, hitem, rfl⟩ := mem_map.mp hkeys
    refine ⟨location, ?_⟩
    rw [getKvKeys, (get?_eq_some_iff _ _ _).mpr hitem]
    exact hkey
  · rintro ⟨location, hkey⟩
    rw [getKvKeys] at hkey
    cases hstored : worker.kvStore.get? location with
    | none => simp [hstored] at hkey
    | some keys =>
      rw [hstored, getD_some] at hkey
      exact ⟨keys, mem_map_of_mem ((get?_eq_some_iff _ _ _).mp hstored), hkey⟩

end WorkerNode

namespace RegistryTree

variable [DecidableEq H]

theorem isSome_findKv (registry : RegistryTree (WorkerNode H)) (key : H)
    (excludeInstanceId : Option String) :
    (registry.findKv key excludeInstanceId).isSome = true ↔
      ∃ instanceId workerId worker location, excludeInstanceId ≠ some instanceId ∧
        registry.getWorker instanceId workerId = some worker ∧ key ∈ worker.getKvKeys location := by
  rw [findKv, findSome?_isSome_iff]
  constructor
  · rintro ⟨⟨instanceId, node⟩, hitem, hfound⟩
    split_ifs at hfound with hexcluded
    · cases hfound
    · obtain ⟨worker, hworker, hholds⟩ := (InstanceNode.isSome_findKeySimple node key).mp hfound
      obtain ⟨⟨workerId, _⟩, hfiled, rfl⟩ := mem_map.mp hworker
      obtain ⟨location, hkey⟩ := (holds_iff _ key).mp hholds
      refine ⟨instanceId, workerId, _, location, hexcluded, ?_, hkey⟩
      rw [getWorker, (get?_eq_some_iff _ _ _).mpr hitem, bind_some]
      exact (get?_eq_some_iff _ _ _).mpr hfiled
  · rintro ⟨instanceId, workerId, worker, location, hexcluded, hworker, hkey⟩
    obtain ⟨node, hnode, hfiled⟩ := bind_eq_some_iff.mp hworker
    refine ⟨(instanceId, node), (get?_eq_some_iff _ _ _).mp hnode, ?_⟩
    rw [if_neg hexcluded, InstanceNode.isSome_findKeySimple]
    exact ⟨worker, mem_map_of_mem ((get?_eq_some_iff _ _ _).mp hfiled),
      (holds_iff worker key).mpr ⟨location, hkey⟩⟩

end RegistryTree

namespace KvRegistry

open Execution

variable [DecidableEq H] {s : KvRegistry H} {msg : BatchedKVOperationMsg H} {isFullSync : Bool}

theorem handleBatchedKvOperations_of_none
    (h : ((s.getWorker msg.instanceId msg.workerId).bind fun worker =>
      worker.handleBatchedKvOperations msg isFullSync) = none) :
    s.handleBatchedKvOperations msg isFullSync = (false, s) := by
  simp only [handleBatchedKvOperations, RegistryTree.handleBatchedKvOperations, h]
  simp only [getWorker] at h
  simp only [h]
  rfl

theorem handleBatchedKvOperations_of_some {worker worker' : WorkerNode H} {gap : Bool}
    (hworker : s.getWorker msg.instanceId msg.workerId = some worker)
    (h : worker.handleBatchedKvOperations msg isFullSync = some (worker', gap)) :
    s.handleBatchedKvOperations msg isFullSync =
      (true, ⟨s.tree.modifyWorker msg.instanceId msg.workerId fun _ => worker',
        s.seqDiscontinuityCount + if gap then 1 else 0⟩) := by
  simp only [handleBatchedKvOperations, RegistryTree.handleBatchedKvOperations, hworker,
    bind_some, h]
  simp only [getWorker] at hworker
  simp only [hworker, bind_some, h]
  rfl

inductive Handled (s : KvRegistry H) (msg : BatchedKVOperationMsg H) (isFullSync : Bool) :
    Bool × KvRegistry H → Prop
  | unregistered (habsent : s.getWorker msg.instanceId msg.workerId = none) :
      Handled s msg isFullSync (false, s)
  | rejected (hsyncing : s.Syncing msg.instanceId msg.workerId) (hincremental : isFullSync = false) :
      Handled s msg isFullSync (false, s)
  | accepted {worker worker' : WorkerNode H} {gap : Bool}
      (hworker : s.getWorker msg.instanceId msg.workerId = some worker)
      (hhandled : worker.handleBatchedKvOperations msg isFullSync = some (worker', gap)) :
      Handled s msg isFullSync
        (true, ⟨s.tree.modifyWorker msg.instanceId msg.workerId fun _ => worker',
          s.seqDiscontinuityCount + if gap then 1 else 0⟩)

theorem handled (s : KvRegistry H) (msg : BatchedKVOperationMsg H) (isFullSync : Bool) :
    Handled s msg isFullSync (s.handleBatchedKvOperations msg isFullSync) := by
  cases hworker : s.getWorker msg.instanceId msg.workerId with
  | none =>
    rw [handleBatchedKvOperations_of_none (by rw [hworker, bind_none])]
    exact .unregistered hworker
  | some worker =>
    cases hhandled : worker.handleBatchedKvOperations msg isFullSync with
    | none =>
      obtain ⟨hsyncing, hincremental⟩ :=
        (handleBatchedKvOperations_eq_none_iff msg isFullSync).mp hhandled
      rw [handleBatchedKvOperations_of_none (by rw [hworker, bind_some, hhandled])]
      exact .rejected ⟨worker, hworker, hsyncing⟩ hincremental
    | some handled =>
      rw [handleBatchedKvOperations_of_some hworker hhandled]
      exact .accepted hworker hhandled

theorem handleBatchedKvOperations_accepted_iff :
    (s.handleBatchedKvOperations msg isFullSync).1 = true ↔
      (s.getWorker msg.instanceId msg.workerId).isSome = true ∧
        (s.Syncing msg.instanceId msg.workerId → isFullSync = true) := by
  have heffect := handled s msg isFullSync
  generalize s.handleBatchedKvOperations msg isFullSync = handled at heffect
  cases heffect with
  | unregistered habsent => simp [habsent]
  | rejected hsyncing hincremental => simp [hsyncing, hincremental]
  | @accepted worker _ _ hworker hhandled =>
    refine iff_of_true rfl ⟨by rw [hworker]; rfl, ?_⟩
    rintro ⟨other, hother, hsyncing⟩
    obtain rfl := some.inj (hworker.symm.trans hother)
    by_contra hincremental
    have hnone := (handleBatchedKvOperations_eq_none_iff msg isFullSync).mpr
      ⟨hsyncing, Bool.eq_false_of_not_eq_true hincremental⟩
    rw [hnone] at hhandled
    cases hhandled

theorem handleBatchedKvOperations_rejected
    (hrejected : (s.handleBatchedKvOperations msg isFullSync).1 = false) :
    s.handleBatchedKvOperations msg isFullSync = (false, s) := by
  have heffect := handled s msg isFullSync
  generalize s.handleBatchedKvOperations msg isFullSync = handled at heffect hrejected ⊢
  cases heffect with
  | unregistered _ => rfl
  | rejected _ _ => rfl
  | accepted _ _ => cases hrejected

theorem seqTracker_fullSync (s : KvRegistry H) (msg : BatchedKVOperationMsg H)
    (instanceId : String) (workerId : ℕ) :
    ((s.handleBatchedKvOperations msg true).2.getWorker instanceId workerId).map seqTracker =
      (s.getWorker instanceId workerId).map seqTracker := by
  have heffect := handled s msg true
  generalize s.handleBatchedKvOperations msg true = handled at heffect ⊢
  cases heffect with
  | unregistered _ => rfl
  | rejected _ _ => rfl
  | @accepted worker worker' _ hworker hhandled =>
    obtain ⟨_, _, htracked⟩ := of_handleBatchedKvOperations hhandled
    have hseq : worker'.seqTracker = worker.seqTracker := congrArg Prod.fst htracked
    simp only [getWorker] at hworker ⊢
    rw [RegistryTree.getWorker_modifyWorker]
    split_ifs with hsame
    · rw [← hsame.1, ← hsame.2, hworker]
      exact congrArg some hseq
    · rfl

structure Reflects (s : KvRegistry H) (history : RegistryHistory H) : Prop where
  workers : ∀ instanceId workerId worker, s.getWorker instanceId workerId = some worker →
    worker.Recounts (history.workers instanceId workerId)
  count : s.seqDiscontinuityCount = history.discontinuities

theorem reflects_create : (create : KvRegistry H).Reflects .empty where
  workers _ _ _ hworker := absurd hworker (by simp [create, getWorker, RegistryTree.getWorker,
    RegistryTree.empty])
  count := rfl

variable {history : RegistryHistory H}
  {tree : RegistryTree (WorkerNode H)} {new : Option (WorkerNode H)}
  {instanceId : String} {workerId : ℕ}

theorem Reflects.modify (h : s.Reflects history) (f : WorkerHistory H → WorkerHistory H)
    (htree : ∀ instanceId' workerId', tree.getWorker instanceId' workerId' =
      if instanceId = instanceId' ∧ workerId = workerId' then new
      else s.tree.getWorker instanceId' workerId') (hnew : ∀ worker, new = some worker →
      worker.Recounts (f (history.workers instanceId workerId))) :
    ({ s with tree := tree } : KvRegistry H).Reflects (history.modify instanceId workerId f) := by
  refine ⟨fun instanceId' workerId' worker hworker => ?_, h.count⟩
  rw [getWorker, htree] at hworker
  simp only [RegistryHistory.modify]
  split_ifs at hworker ⊢
  · exact hnew worker hworker
  · exact h.workers _ _ _ hworker

theorem Reflects.silent (h : s.Reflects history)
    (htree : ∀ instanceId' workerId', tree.getWorker instanceId' workerId' =
      if instanceId = instanceId' ∧ workerId = workerId' then new
      else s.tree.getWorker instanceId' workerId') (hnew : ∀ worker, new = some worker →
      worker.Recounts (history.workers instanceId workerId)) :
    ({ s with tree := tree } : KvRegistry H).Reflects history := by
  refine ⟨fun instanceId' workerId' worker hworker => ?_, h.count⟩
  rw [getWorker, htree] at hworker
  split_ifs at hworker with hsame
  · rw [← hsame.1, ← hsame.2]
    exact hnew worker hworker
  · exact h.workers _ _ _ hworker

theorem Reflects.accept (h : s.Reflects history) {worker worker' : WorkerNode H} {gap : Bool}
    (hworker : s.getWorker msg.instanceId msg.workerId = some worker)
    (hhandled : worker.handleBatchedKvOperations msg isFullSync = some (worker', gap)) :
    (⟨s.tree.modifyWorker msg.instanceId msg.workerId fun _ => worker',
        s.seqDiscontinuityCount + if gap then 1 else 0⟩ : KvRegistry H).Reflects
      { history.modify msg.instanceId msg.workerId fun worker => worker.accept msg isFullSync with
        discontinuities := history.discontinuities + if isFullSync = false ∧
          (history.workers msg.instanceId msg.workerId).Discontinuous msg then 1 else 0 } := by
  obtain ⟨hrecounts, hgap⟩ := (h.workers _ _ _ hworker).accept hhandled
  have hmodified := h.modify (fun worker => worker.accept msg isFullSync)
    (s.tree.getWorker_modifyWorker msg.instanceId msg.workerId fun _ => worker') (by
      intro worker hnew
      obtain ⟨_, _, rfl⟩ := map_eq_some_iff.mp hnew
      exact hrecounts)
  refine ⟨hmodified.workers, ?_⟩
  simp only [h.count, hgap]

theorem Reflects.exec (h : s.Reflects history) (request : RegistryRequest H) :
    (s.exec request).Reflects (history.record s request) := by
  cases request with
  | registerWorker instanceId workerId =>
    refine h.modify (fun _ => .empty)
      (s.tree.getWorker_registerWorker instanceId workerId (.create workerId)) ?_
    rintro _ ⟨⟩
    exact recounts_create workerId
  | deregisterWorker instanceId workerId =>
    exact h.silent (s.tree.getWorker_deregisterWorker instanceId workerId)
      fun _ hnone => nomatch hnone
  | setSyncInfo instanceId workerId syncInfo =>
    refine h.silent (actsOn_setSyncInfo s.tree instanceId workerId syncInfo) ?_
    intro worker hworker
    obtain ⟨old, hold, rfl⟩ := map_eq_some_iff.mp hworker
    obtain ⟨hstored, htracked⟩ := h.workers _ _ _ hold
    exact ⟨hstored, htracked⟩
  | clearWorkerKv instanceId workerId location =>
    refine h.modify (fun worker => worker.clear location)
      (s.tree.getWorker_modifyWorker instanceId workerId fun worker => worker.clearKv location) ?_
    intro worker hworker
    obtain ⟨old, hold, rfl⟩ := map_eq_some_iff.mp hworker
    exact (h.workers _ _ _ hold).clearKv location
  | handleBatchedKvOperations msg isFullSync =>
    have heffect := handled s msg isFullSync
    rw [KvRegistry.exec, RegistryHistory.record]
    generalize s.handleBatchedKvOperations msg isFullSync = handled at heffect ⊢
    cases heffect with
    | unregistered _ => exact h
    | rejected _ _ => exact h
    | accepted hworker hhandled => exact h.accept hworker hhandled

variable (events : List (RegistryRequest H))

def run : KvRegistry H × RegistryHistory H :=
  final (fun p request => (p.1.exec request, p.2.record p.1 request)) (create, .empty) events

def historyOf : RegistryHistory H := (run events).2

theorem run_fst : (run events).1 = final exec create events := by
  have hfst : ∀ (p : KvRegistry H × RegistryHistory H) (events : List (RegistryRequest H)),
      (final (fun p request => (p.1.exec request, p.2.record p.1 request)) p events).1 =
        final exec p.1 events := by
    intro p events
    induction events generalizing p with
    | nil => rfl
    | cons request events ih => exact ih _
  exact hfst _ events

theorem reflects_final : (final exec create events).Reflects (historyOf events) := by
  rw [← run_fst]
  exact invariant_final (I := fun p : KvRegistry H × RegistryHistory H => p.1.Reflects p.2)
    (Q := fun _ _ => True) (fun _ request hreflects _ => hreflects.exec request) reflects_create
    (along_of_forall (fun _ _ => trivial) _ _)

structure IncrementalSemantics (s : KvRegistry H) (history : RegistryHistory H) : Prop where
  folded : ∀ instanceId workerId worker location,
    s.getWorker instanceId workerId = some worker →
      worker.getKvKeys location = (history.workers instanceId workerId).keys location
  nonempty : ∀ instanceId workerId worker location,
    s.getWorker instanceId workerId = some worker → worker.kvStore.get? location ≠ some ∅
  tracked : ∀ instanceId workerId worker location,
    s.getWorker instanceId workerId = some worker →
      worker.seqTracker.get? location =
        ((history.workers instanceId workerId).seqNums location).getLast?
  accepted : ∀ msg isFullSync, (s.handleBatchedKvOperations msg isFullSync).1 = true ↔
    (s.getWorker msg.instanceId msg.workerId).isSome = true ∧
      (s.Syncing msg.instanceId msg.workerId → isFullSync = true)
  rejected : ∀ msg isFullSync, (s.handleBatchedKvOperations msg isFullSync).1 = false →
    s.handleBatchedKvOperations msg isFullSync = (false, s)
  untracked : ∀ msg instanceId workerId,
    ((s.handleBatchedKvOperations msg true).2.getWorker instanceId workerId).map seqTracker =
      (s.getWorker instanceId workerId).map seqTracker
  counted : s.seqDiscontinuityCount = history.discontinuities
  found : ∀ key excludeInstanceId, (s.tree.findKv key excludeInstanceId).isSome = true ↔
    ∃ instanceId workerId worker location, excludeInstanceId ≠ some instanceId ∧
      s.getWorker instanceId workerId = some worker ∧ key ∈ worker.getKvKeys location

theorem incrementalSemantics :
    IncrementalSemantics (final exec create events) (historyOf events) where
  folded _ _ _ location hworker :=
    ((reflects_final events).workers _ _ _ hworker).getKvKeys location
  nonempty _ _ _ location hworker hempty := by
    rw [((reflects_final events).workers _ _ _ hworker).stored] at hempty
    split_ifs at hempty with hkeys
    exact hkeys (some.inj hempty)
  tracked _ _ _ location hworker := ((reflects_final events).workers _ _ _ hworker).tracked location
  accepted _ _ := handleBatchedKvOperations_accepted_iff
  rejected _ _ := handleBatchedKvOperations_rejected
  untracked := seqTracker_fullSync _
  counted := (reflects_final events).count
  found := RegistryTree.isSome_findKv _

end KvRegistry

end LMCache
