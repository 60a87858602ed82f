import LMCache.CacheController.Registry
import LMCache.Foundations.Execution

namespace LMCache

inductive RegisterPc
  | creating
  | adding (ref : ℕ)
  deriving DecidableEq, Repr

inductive DeregisterPc (W : Type)
  | removing (ref : ℕ)
  | checking (ref : ℕ) (removed : Option W)
  | cleaning (ref : ℕ) (removed : Option W)
  | popping (ref : ℕ) (removed : Option W)
  deriving DecidableEq, Repr

inductive RegistryCall (W : Type)
  | register (instanceId : String) (workerId : ℕ) (worker : W) (pc : RegisterPc)
  | deregister (instanceId : String) (workerId : ℕ) (pc : DeregisterPc W)
  deriving DecidableEq, Repr

-- writer is the call inside the registry's write lock between two of its own steps
structure SharedRegistry (W : Type) where
  instances : Dict String ℕ
  nodes : ℕ → InstanceNode W
  nextRef : ℕ
  writer : Option ℕ
  calls : Dict ℕ (RegistryCall W)
  returned : Dict ℕ (Option W)
  nextCall : ℕ

inductive RegistryEvent (W : Type)
  | registerWorker (instanceId : String) (workerId : ℕ) (worker : W)
  | deregisterWorker (instanceId : String) (workerId : ℕ)
  | step (callId : ℕ)
  | timeout (callId : ℕ)

namespace SharedRegistry

variable {W : Type}

def create : SharedRegistry W where
  instances := .empty
  nodes := fun _ => .create ""
  nextRef := 0
  writer := none
  calls := .empty
  returned := .empty
  nextCall := 0

variable (s : SharedRegistry W)

def setCall (callId : ℕ) (call : RegistryCall W) : SharedRegistry W :=
  { s with calls := s.calls.set callId call }

def mapNode (ref : ℕ) (f : InstanceNode W → InstanceNode W) : SharedRegistry W :=
  { s with nodes := Function.update s.nodes ref (f (s.nodes ref)) }

def finish (callId : ℕ) (result : Option W) : SharedRegistry W :=
  { s with calls := s.calls.erase callId, returned := s.returned.set callId result }

def abandon (callId : ℕ) : SharedRegistry W :=
  { s with calls := s.calls.erase callId }

def tick : SharedRegistry W := { s with nextCall := s.nextCall + 1 }

variable (instanceId : String)

def fileInstance : SharedRegistry W :=
  { s with
    instances := s.instances.set instanceId s.nextRef
    nodes := Function.update s.nodes s.nextRef (.create instanceId)
    nextRef := s.nextRef + 1 }

def beginRegister (workerId : ℕ) (worker : W) : SharedRegistry W :=
  match s.instances.get? instanceId with
  | some ref => (s.setCall s.nextCall (.register instanceId workerId worker (.adding ref))).tick
  | none => (s.setCall s.nextCall (.register instanceId workerId worker .creating)).tick

def beginDeregister (workerId : ℕ) : SharedRegistry W :=
  match s.instances.get? instanceId with
  | some ref => (s.setCall s.nextCall (.deregister instanceId workerId (.removing ref))).tick
  | none => (s.finish s.nextCall none).tick

def stepRegister (callId : ℕ) (instanceId : String) (workerId : ℕ) (worker : W) :
    RegisterPc → SharedRegistry W
  | .creating =>
      match s.writer, s.instances.get? instanceId with
      | some _, _ => s
      | none, some ref => s.setCall callId (.register instanceId workerId worker (.adding ref))
      | none, none => (s.fileInstance instanceId).setCall callId
          (.register instanceId workerId worker (.adding s.nextRef))
  | .adding ref => (s.mapNode ref fun node => node.addWorker workerId worker).finish callId worker

def stepDeregister (callId : ℕ) (instanceId : String) (workerId : ℕ) :
    DeregisterPc W → SharedRegistry W
  | .removing ref =>
      (s.mapNode ref fun node => (node.removeWorker workerId).2).setCall callId
        (.deregister instanceId workerId (.checking ref ((s.nodes ref).removeWorker workerId).1))
  | .checking ref removed =>
      if (s.nodes ref).hasWorkers then s.finish callId removed
      else s.setCall callId (.deregister instanceId workerId (.cleaning ref removed))
  | .cleaning ref removed =>
      match s.writer with
      | some _ => s
      | none =>
          if (s.nodes ref).hasWorkers then s.finish callId removed
          else { s.setCall callId (.deregister instanceId workerId (.popping ref removed)) with
            writer := some callId }
  | .popping _ removed =>
      { s with instances := s.instances.erase instanceId, writer := none }.finish callId removed

def waits : RegistryCall W → Bool
  | .register _ _ _ _ => true
  | .deregister _ _ (.removing _) => true
  | .deregister _ _ (.cleaning _ _) => true
  | .deregister _ _ _ => false

def exec : RegistryEvent W → SharedRegistry W
  | .registerWorker instanceId workerId worker => s.beginRegister instanceId workerId worker
  | .deregisterWorker instanceId workerId => s.beginDeregister instanceId workerId
  | .step callId =>
      match s.calls.get? callId with
      | none => s
      | some (.register instanceId workerId worker pc) =>
          s.stepRegister callId instanceId workerId worker pc
      | some (.deregister instanceId workerId pc) => s.stepDeregister callId instanceId workerId pc
  | .timeout callId =>
      match s.calls.get? callId with
      | none => s
      | some call => if waits call then s.abandon callId else s

def getInstance : Option ℕ := s.instances.get? instanceId

def getWorkerAt (ref : Option ℕ) (workerId : ℕ) : Option W :=
  ref.bind fun ref => (s.nodes ref).getWorker workerId

inductive Effect (s : SharedRegistry W) : RegistryEvent W → SharedRegistry W → Prop
  | idle (e : RegistryEvent W) : Effect s e s
  | obtained {instanceId : String} {ref : ℕ} (workerId : ℕ) (worker : W)
      (hfiled : s.instances.get? instanceId = some ref) :
      Effect s (.registerWorker instanceId workerId worker)
        (s.setCall s.nextCall (.register instanceId workerId worker (.adding ref))).tick
  | missed {instanceId : String} (workerId : ℕ) (worker : W) :
      Effect s (.registerWorker instanceId workerId worker)
        (s.setCall s.nextCall (.register instanceId workerId worker .creating)).tick
  | found {instanceId : String} {ref : ℕ} (workerId : ℕ)
      (hfiled : s.instances.get? instanceId = some ref) :
      Effect s (.deregisterWorker instanceId workerId)
        (s.setCall s.nextCall (.deregister instanceId workerId (.removing ref))).tick
  | absent (instanceId : String) (workerId : ℕ) :
      Effect s (.deregisterWorker instanceId workerId) (s.finish s.nextCall none).tick
  | joined {callId : ℕ} {instanceId : String} {workerId : ℕ} {worker : W} {ref : ℕ}
      (hcall : s.calls.get? callId = some (.register instanceId workerId worker .creating))
      (hfiled : s.instances.get? instanceId = some ref) :
      Effect s (.step callId) (s.setCall callId (.register instanceId workerId worker (.adding ref)))
  | created {callId : ℕ} {instanceId : String} {workerId : ℕ} {worker : W}
      (hcall : s.calls.get? callId = some (.register instanceId workerId worker .creating))
      (habsent : s.instances.get? instanceId = none) :
      Effect s (.step callId) ((s.fileInstance instanceId).setCall callId
        (.register instanceId workerId worker (.adding s.nextRef)))
  | added {callId : ℕ} {instanceId : String} {workerId : ℕ} {worker : W} {ref : ℕ}
      (hcall : s.calls.get? callId = some (.register instanceId workerId worker (.adding ref))) :
      Effect s (.step callId)
        ((s.mapNode ref fun node => node.addWorker workerId worker).finish callId worker)
  | removed {callId : ℕ} {instanceId : String} {workerId : ℕ} {ref : ℕ}
      (hcall : s.calls.get? callId = some (.deregister instanceId workerId (.removing ref))) :
      Effect s (.step callId)
        ((s.mapNode ref fun node => (node.removeWorker workerId).2).setCall callId
          (.deregister instanceId workerId (.checking ref ((s.nodes ref).removeWorker workerId).1)))
  | kept {callId : ℕ} {instanceId : String} {workerId : ℕ} {pc : DeregisterPc W} {ref : ℕ}
      {removed : Option W} (hpc : pc = .checking ref removed ∨ pc = .cleaning ref removed)
      (hcall : s.calls.get? callId = some (.deregister instanceId workerId pc))
      (hworkers : (s.nodes ref).hasWorkers = true) :
      Effect s (.step callId) (s.finish callId removed)
  | emptied {callId : ℕ} {instanceId : String} {workerId : ℕ} {ref : ℕ} {removed : Option W}
      (hcall : s.calls.get? callId =
        some (.deregister instanceId workerId (.checking ref removed))) :
      Effect s (.step callId)
        (s.setCall callId (.deregister instanceId workerId (.cleaning ref removed)))
  | locked {callId : ℕ} {instanceId : String} {workerId : ℕ} {ref : ℕ} {removed : Option W}
      (hcall : s.calls.get? callId =
        some (.deregister instanceId workerId (.cleaning ref removed))) :
      Effect s (.step callId)
        { s.setCall callId (.deregister instanceId workerId (.popping ref removed)) with
          writer := some callId }
  | popped {callId : ℕ} {instanceId : String} {workerId : ℕ} {ref : ℕ} {removed : Option W}
      (hcall : s.calls.get? callId =
        some (.deregister instanceId workerId (.popping ref removed))) :
      Effect s (.step callId)
        ({ s with instances := s.instances.erase instanceId, writer := none }.finish callId removed)
  | timedOut {callId : ℕ} {call : RegistryCall W} (hcall : s.calls.get? callId = some call) :
      Effect s (.timeout callId) (s.abandon callId)

theorem effect_exec (e : RegistryEvent W) : Effect s e (s.exec e) := by
  cases e with
  | registerWorker instanceId workerId worker =>
    rw [exec, beginRegister]
    split
    · exact .obtained workerId worker ‹_›
    · exact .missed workerId worker
  | deregisterWorker instanceId workerId =>
    rw [exec, beginDeregister]
    split
    · exact .found workerId ‹_›
    · exact .absent instanceId workerId
  | timeout callId =>
    rw [exec]
    split
    · exact .idle _
    · split_ifs
      · exact .timedOut ‹_›
      · exact .idle _
  | step callId =>
    rw [exec]
    split
    · exact .idle _
    · rename_i instanceId workerId worker pc hcall
      cases pc with
      | creating =>
        rw [stepRegister]
        split
        · exact .idle _
        · exact .joined hcall ‹_›
        · exact .created hcall ‹_›
      | adding ref => exact .added hcall
    · rename_i instanceId workerId pc hcall
      cases pc with
      | removing ref => exact .removed hcall
      | checking ref removed =>
        rw [stepDeregister]
        split_ifs with hworkers
        · exact .kept (.inl rfl) hcall hworkers
        · exact .emptied hcall
      | cleaning ref removed =>
        rw [stepDeregister]
        split
        · exact .idle _
        · split_ifs with hworkers
          · exact .kept (.inr rfl) hcall hworkers
          · exact .locked hcall
      | popping ref removed => exact .popped hcall

end SharedRegistry

end LMCache
