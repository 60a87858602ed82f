import LMCache.Distributed.ReadLedger
import LMCache.Distributed.StorageControllers.PrefetchController

namespace LMCache

structure StoreListener (K : Type) where
  pendingKeys : List K

namespace StoreListener

variable {K : Type}

def onNotification (l : StoreListener K) : L1Notification K → StoreListener K
  | .keysWriteFinished keys => ⟨l.pendingKeys ++ keys⟩
  | .keysReservedRead _ => l
  | .keysReadFinished _ => l
  | .keysReservedWrite _ => l
  | .keysDeletedByManager _ => l
  | .keysFinishWriteAndReserveRead _ => l

def popPendingKeys (l : StoreListener K) : List K × StoreListener K := (l.pendingKeys, ⟨[]⟩)

def heard (ns : List (L1Notification K)) : StoreListener K := ns.foldl onNotification ⟨[]⟩

end StoreListener

namespace L1Manager

variable {K : Type} [DecidableEq K]

theorem succeeds_finishWriteKey (now : ℕ) (e : L1ObjectState) :
    succeeds (finishWriteKey now) (some e) =
      (e.writeLock.isLocked now && !e.readLock.isLocked now) := by
  simp only [succeeds, finishWriteKey]
  cases e.writeLock.isLocked now <;> cases e.readLock.isLocked now <;> rfl

def announced (m : L1Manager K) (now : ℕ) : L1Step K → List K
  | .finishWrite keys => (m.finishWritePass now keys).successfulKeys
  | _ => []

theorem notifications_step (m : L1Manager K) (now : ℕ) (op : L1Step K) :
    ∃ ns, (m.step now op).notifications = m.notifications ++ ns ∧
      (StoreListener.heard ns).pendingKeys = m.announced now op := by
  cases op with
  | advance ms => exact ⟨[], (List.append_nil _).symm, rfl⟩
  | reserveRead keys extraCount => exact ⟨_, rfl, rfl⟩
  | unsafeRead keys => exact ⟨[], (List.append_nil _).symm, rfl⟩
  | finishRead keys extraCount => exact ⟨_, rfl, rfl⟩
  | reserveWrite granted keys isTemporary mode =>
    simp only [step, reserveWrite]
    split_ifs
    · exact ⟨[], (List.append_nil _).symm, rfl⟩
    · exact ⟨[], (List.append_nil _).symm, rfl⟩
    · cases granted with
      | false => exact ⟨_, rfl, rfl⟩
      | true => exact ⟨_, rfl, rfl⟩
  | finishWrite keys => exact ⟨_, rfl, by simp [StoreListener.heard, StoreListener.onNotification, announced]⟩
  | finishWriteAndReserveRead keys extraCount => exact ⟨_, rfl, rfl⟩
  | delete keys => exact ⟨_, rfl, rfl⟩
  | clear force =>
    simp only [step, clear]
    split_ifs
    · exact ⟨_, rfl, rfl⟩
    · exact ⟨[], (List.append_nil _).symm, rfl⟩
    · exact ⟨_, rfl, rfl⟩

end L1Manager

structure StorePolicy (K : Type) where
  selectStoreTargets : List K → List AdapterDescriptor → Dict ℕ (List K)
  selectL1Deletions : List K → List K

namespace StorePolicy

variable {K : Type}

def default : StorePolicy K where
  selectStoreTargets keys adapters := adapters.foldl (fun plan ad => plan.set ad.index keys) .empty
  selectL1Deletions _ := []

def bufferOnly : StorePolicy K := { default with selectL1Deletions := id }

end StorePolicy

structure InFlightStoreTask (K : Type) where
  adapterIndex : ℕ
  keys : List K
  readLockedKeys : List K

structure StoreController (K : Type) where
  adapters : List AdapterDescriptor
  listener : StoreListener K
  inFlightTasks : Dict (ℕ × ℕ) (InFlightStoreTask K)
  statusInFlightCount : ℤ

inductive StoreWork (K : Type) where
  | target (adapterIndex : ℕ) (targetKeys : List K)
  | completed (adapterIndex taskId : ℕ) (success : Bool)
  | deletion (deleteKeys : List K)
  | cleanup (task : InFlightStoreTask K)
  | clearTasks

def StoreWork.cleaned {K : Type} : StoreWork K → Option (InFlightStoreTask K)
  | .cleanup task => some task
  | _ => none

def StoreWork.isEnding {K : Type} : StoreWork K → Bool
  | .cleanup _ | .clearTasks => true
  | _ => false

-- taken and returned count the read locks the controller's own calls got and gave back
structure StoreRun (K : Type) where
  l1 : L1Manager K
  now : ℕ
  controller : StoreController K
  todo : List (StoreWork K)
  joined : Bool
  taken : K → ℕ
  returned : K → ℕ

inductive StoreEvent (K : Type) where
  | other (op : L1Step K)
  | newKeys (policy : StorePolicy K)
  | adapterReady (adapterIndex : ℕ) (completed : Dict ℕ Bool)
  | work (taskId : ℕ) (policy : StorePolicy K)
  | stop

namespace StoreRun

variable {K : Type} [DecidableEq K]

def start (l1 : L1Manager K) (now : ℕ) (adapters : List AdapterDescriptor) : StoreRun K where
  l1 := l1
  now := now
  controller := ⟨adapters, ⟨[]⟩, .empty, 0⟩
  todo := []
  joined := false
  taken _ := 0
  returned _ := 0

variable (s : StoreRun K)

def observe (op : L1Step K) : StoreController K :=
  let heard := (s.l1.step s.now op).notifications.drop s.l1.notifications.length
  { s.controller with listener := heard.foldl StoreListener.onNotification s.controller.listener }

def call (op : L1Step K) : StoreRun K :=
  { s with
    l1 := s.l1.step s.now op
    controller := s.observe op
    taken := fun k => s.taken k + (s.l1.readGranted s.now op).count k * op.lockTotal
    returned := fun k => s.returned k + (s.l1.readReturned s.now op).count k * op.lockTotal }

def processNewKeys (policy : StorePolicy K) (keys : List K) : StoreRun K :=
  { s with
    todo := (policy.selectStoreTargets keys s.controller.adapters).items.map
      (fun item => .target item.1 item.2) }

def readObj (readResults : Dict K L1OperationResult) (key : K) : Option (K × MemoryObj) :=
  match readResults.get? key with
  | some (.success, some obj) => some (key, obj)
  | _ => none

def successful (readResults : Dict K L1OperationResult) (targetKeys : List K) :
    List (K × MemoryObj) := targetKeys.filterMap (readObj readResults)

def trackTask (adapterIndex taskId : ℕ) (successfulKeys : List K) : StoreRun K :=
  { s with
    controller :=
      { s.controller with
        inFlightTasks := s.controller.inFlightTasks.set (adapterIndex, taskId)
          ⟨adapterIndex, successfulKeys, successfulKeys⟩
        statusInFlightCount := s.controller.statusInFlightCount + 1 } }

def processTarget (adapterIndex : ℕ) (targetKeys : List K) (taskId : ℕ) : StoreRun K :=
  if targetKeys.isEmpty then s
  else if s.controller.adapters.length ≤ adapterIndex then s
  else
    let readResults := (s.l1.reserveRead s.now targetKeys 0).1
    let successfulKeys := (successful readResults targetKeys).map Prod.fst
    if successfulKeys.isEmpty then s.call (.reserveRead targetKeys 0)
    else (s.call (.reserveRead targetKeys 0)).trackTask adapterIndex taskId successfulKeys

def popTask (adapterIndex taskId : ℕ) : StoreRun K :=
  { s with
    controller :=
      { s.controller with
        inFlightTasks := s.controller.inFlightTasks.erase (adapterIndex, taskId)
        statusInFlightCount := s.controller.statusInFlightCount - 1 } }

def processCompletedTask (policy : StorePolicy K) (adapterIndex taskId : ℕ) (success : Bool) :
    StoreRun K :=
  match s.controller.inFlightTasks.get? (adapterIndex, taskId) with
  | none => s
  | some task =>
      let s := (s.popTask adapterIndex taskId).call (.finishRead task.readLockedKeys 0)
      let deleteKeys := policy.selectL1Deletions task.keys
      if success && !deleteKeys.isEmpty then { s with todo := .deletion deleteKeys :: s.todo } else s

def clearTasks : StoreRun K :=
  { s with controller := { s.controller with inFlightTasks := .empty } }

def runWork (taskId : ℕ) (policy : StorePolicy K) : StoreRun K :=
  match s.todo with
  | [] => s
  | .target adapterIndex targetKeys :: todo =>
      { s with todo := todo }.processTarget adapterIndex targetKeys taskId
  | .completed adapterIndex completedId success :: todo =>
      { s with todo := todo }.processCompletedTask policy adapterIndex completedId success
  | .deletion deleteKeys :: todo => { s with todo := todo }.call (.delete deleteKeys)
  | .cleanup task :: todo => { s with todo := todo }.call (.finishRead task.readLockedKeys 0)
  | .clearTasks :: todo => { s with todo := todo }.clearTasks

def polls : Bool := s.todo.isEmpty && !s.joined

def exec : StoreEvent K → StoreRun K
  | .other op => { s with l1 := s.l1.step s.now op, now := op.tick s.now, controller := s.observe op }
  | .newKeys policy =>
      if s.polls then
        let (keys, listener) := s.controller.listener.popPendingKeys
        let s := { s with controller := { s.controller with listener := listener } }
        if keys.isEmpty then s else s.processNewKeys policy keys
      else s
  | .adapterReady adapterIndex completed =>
      if s.polls then
        { s with todo := completed.items.map (fun item => .completed adapterIndex item.1 item.2) }
      else s
  | .work taskId policy => s.runWork taskId policy
  | .stop =>
      if s.polls then
        { s with
          joined := true
          todo := s.controller.inFlightTasks.values.map .cleanup ++ [.clearTasks] }
      else s

def tasks : List (InFlightStoreTask K) :=
  if s.joined then s.todo.filterMap StoreWork.cleaned else s.controller.inFlightTasks.values

def owed : List K := s.tasks.flatMap InFlightStoreTask.readLockedKeys

def stopped : Bool := s.joined && s.todo.isEmpty

end StoreRun

end LMCache
