import LMCache.CacheController.FullSyncTracker
import LMCache.Foundations.Execution
import LMCache.Foundations.Lists

namespace LMCache

structure FullSyncSender where
  instanceId : String
  workerId : ℕ
  location : String
  batchSize : ℕ
  maxRetryCount : ℕ
  batchSizePos : 0 < batchSize

structure SyncInitResult (H : Type) where
  syncId : String
  keys : List H
  totalKeys : ℕ
  batchCount : ℕ

inductive SenderPhase
  | starting
  | sending (batchId : ℕ)
  | polling
  | resending (missingBatches : List ℕ)
  | finished
  deriving DecidableEq, Repr

structure SenderSession (H : Type) where
  sender : FullSyncSender
  init : SyncInitResult H
  phase : SenderPhase
  resendCount : ℕ

inductive PushMsg (H : Type)
  | batch (msg : FullSyncBatchMsg H)
  | syncEnd (msg : FullSyncEndMsg)

variable {H : Type}

namespace FullSyncSender

variable (sender : FullSyncSender)

def initializeSync (syncId : String) (keys : List H) : SyncInitResult H :=
  let totalKeys := keys.length
  let batchCount := (totalKeys + sender.batchSize - 1) / sender.batchSize
  ⟨syncId, keys, totalKeys, max batchCount 1⟩

variable (init : SyncInitResult H)

def startMsg : FullSyncStartMsg :=
  ⟨sender.instanceId, sender.workerId, sender.location, init.syncId, init.totalKeys,
    init.batchCount⟩

def batchKeys (keys : List H) (batchId : ℕ) : List H :=
  let startIdx := batchId * sender.batchSize
  let endIdx := min (startIdx + sender.batchSize) keys.length
  Slice.slice keys startIdx endIdx

def batchMsg (batchId : ℕ) : PushMsg H :=
  .batch ⟨sender.instanceId, sender.workerId, sender.location, init.syncId, batchId,
    sender.batchKeys init.keys batchId⟩

def endMsg : PushMsg H :=
  .syncEnd ⟨sender.instanceId, sender.workerId, sender.location, init.syncId, init.totalKeys⟩

end FullSyncSender

namespace SenderSession

def begin (sender : FullSyncSender) (syncId : String) (keys : List H) : SenderSession H :=
  ⟨sender, sender.initializeSync syncId keys, .starting, 0⟩

variable (session : SenderSession H)

def batch (batchId : ℕ) : List H :=
  session.sender.batchKeys session.init.keys batchId

def push : Option (PushMsg H) × SenderSession H :=
  let batchMsg := session.sender.batchMsg session.init
  let endMsg := session.sender.endMsg session.init
  match session.phase with
  | .sending batchId =>
      if batchId < session.init.batchCount then
        (some (batchMsg batchId), { session with phase := .sending (batchId + 1) })
      else (some endMsg, { session with phase := .polling })
  | .resending (batchId :: missingBatches) =>
      (some (batchMsg batchId), { session with phase := .resending missingBatches })
  | .resending [] => (some endMsg, { session with phase := .polling })
  | _ => (none, session)

def onStarted (ret : FullSyncStartRetMsg) : SenderSession H :=
  match session.phase with
  | .starting => if ret.accepted then { session with phase := .sending 0 } else session
  | _ => session

def onStatus (status : FullSyncStatusRetMsg) (canExitFreeze : Bool) : SenderSession H :=
  match session.phase with
  | .polling =>
      if canExitFreeze then { session with phase := .finished }
      else if status.missingBatches ≠ [] ∧ session.resendCount < session.sender.maxRetryCount then
        { session with
          phase := .resending status.missingBatches
          resendCount := session.resendCount + 1 }
      else session
  | _ => session

theorem push_kept :
    session.push.2.sender = session.sender ∧ session.push.2.init = session.init := by
  rw [push]
  split
  · split_ifs
    · exact ⟨rfl, rfl⟩
    · exact ⟨rfl, rfl⟩
  · exact ⟨rfl, rfl⟩
  · exact ⟨rfl, rfl⟩
  · exact ⟨rfl, rfl⟩

theorem onStarted_kept (ret : FullSyncStartRetMsg) :
    (session.onStarted ret).sender = session.sender ∧
      (session.onStarted ret).init = session.init := by
  rw [onStarted]
  split
  · split_ifs
    · exact ⟨rfl, rfl⟩
    · exact ⟨rfl, rfl⟩
  · exact ⟨rfl, rfl⟩

theorem onStatus_kept (status : FullSyncStatusRetMsg) (canExitFreeze : Bool) :
    (session.onStatus status canExitFreeze).sender = session.sender ∧
      (session.onStatus status canExitFreeze).init = session.init := by
  rw [onStatus]
  split
  · split_ifs
    · exact ⟨rfl, rfl⟩
    · exact ⟨rfl, rfl⟩
    · exact ⟨rfl, rfl⟩
  · exact ⟨rfl, rfl⟩

end SenderSession

structure SyncNetwork (H : Type) where
  registry : RegistryTree (WorkerNode H)
  sessions : Dict String (SenderSession H)
  sent : List (PushMsg H)

inductive SyncEvent (H : Type)
  | registerWorker (instanceId : String) (workerId : ℕ)
  | begin (sender : FullSyncSender) (syncId : String) (keys : List H)
  | start (syncId : String) (answered : Bool)
  | push (syncId : String)
  | deliver (index : ℕ)
  | query (syncId : String) (answered canExitFreeze : Bool)

namespace SyncNetwork

variable [DecidableEq H]

def create : SyncNetwork H := ⟨.empty, .empty, []⟩

variable (s : SyncNetwork H)

def setSession (syncId : String) (session : SenderSession H) : SyncNetwork H :=
  { s with sessions := s.sessions.set syncId session }

def status (session : SenderSession H) : FullSyncStatusRetMsg :=
  KVController.handleFullSyncStatus s.registry
    ⟨session.sender.instanceId, session.sender.workerId, session.init.syncId⟩

def handle : PushMsg H → SyncNetwork H
  | .batch msg => { s with registry := KVController.handleFullSyncBatch s.registry msg }
  | .syncEnd msg => { s with registry := KVController.handleFullSyncEnd s.registry msg }

def exec : SyncEvent H → SyncNetwork H
  | .registerWorker instanceId workerId =>
      { s with registry := s.registry.registerWorker instanceId workerId (.create workerId) }
  | .begin sender syncId keys =>
      match s.sessions.get? syncId with
      | some _ => s
      | none => s.setSession syncId (.begin sender syncId keys)
  | .start syncId answered =>
      match s.sessions.get? syncId with
      | none => s
      | some session =>
          let handled := KVController.handleFullSyncStart s.registry
            (session.sender.startMsg session.init)
          let session := if answered then session.onStarted handled.1 else session
          { s with registry := handled.2, sessions := s.sessions.set syncId session }
  | .push syncId =>
      match s.sessions.get? syncId with
      | none => s
      | some session =>
          { s with
            sessions := s.sessions.set syncId session.push.2
            sent := s.sent ++ session.push.1.toList }
  | .deliver index =>
      match s.sent[index]? with
      | none => s
      | some msg => s.handle msg
  | .query syncId answered canExitFreeze =>
      match s.sessions.get? syncId with
      | none => s
      | some session =>
          if answered then s.setSession syncId (session.onStatus (s.status session) canExitFreeze)
          else s

end SyncNetwork

end LMCache

namespace LMCache

namespace SyncNetwork

variable {H : Type}

def KeysReceived (session : SenderSession H) (info : WorkerSyncInfo) : Prop :=
  ∀ key ∈ session.init.keys, ∃ batchId ∈ info.receivedBatches, key ∈ session.batch batchId

def EndsCovered (s : SyncNetwork H) : SyncEvent H → Prop
  | .deliver index => ∀ msg, s.sent[index]? = some (.syncEnd msg) →
      ∀ info, FullSyncTracker.getSyncInfo s.registry msg.instanceId msg.workerId = some info →
        info.syncId = msg.syncId →
        ∀ session, s.sessions.get? msg.syncId = some session → KeysReceived session info
  | _ => True

def Genuine (sessions : Dict String (SenderSession H)) : PushMsg H → Prop
  | .batch msg => ∃ session, sessions.get? msg.syncId = some session ∧
      msg.instanceId = session.sender.instanceId ∧ msg.workerId = session.sender.workerId ∧
      msg.location = session.sender.location ∧ msg.keys = session.batch msg.batchId
  | .syncEnd msg => ∃ session, sessions.get? msg.syncId = some session ∧
      msg.instanceId = session.sender.instanceId ∧ msg.workerId = session.sender.workerId

def Accounted (sessions : Dict String (SenderSession H)) (instanceId : String) (workerId : ℕ)
    (worker : WorkerNode H) : Prop :=
  ∀ info, worker.syncInfo = some info → ∃ session, sessions.get? info.syncId = some session ∧
    session.sender.instanceId = instanceId ∧ session.sender.workerId = workerId ∧
    ∀ key, key ∈ worker.getKvKeys session.sender.location ↔
      ∃ batchId ∈ info.receivedBatches, key ∈ session.batch batchId

structure Consistent (s : SyncNetwork H) : Prop where
  ids : ∀ syncId session, s.sessions.get? syncId = some session → session.init.syncId = syncId
  sent : ∀ msg ∈ s.sent, Genuine s.sessions msg
  accounted : ∀ instanceId workerId worker, s.registry.getWorker instanceId workerId = some worker →
    Accounted s.sessions instanceId workerId worker

def Extends (sessions sessions' : Dict String (SenderSession H)) : Prop :=
  ∀ syncId session, sessions.get? syncId = some session →
    ∃ session', sessions'.get? syncId = some session' ∧ session'.sender = session.sender ∧
      session'.init = session.init

variable {s : SyncNetwork H} {sessions sessions' : Dict String (SenderSession H)} {syncId : String}

theorem Extends.of_absent (h : sessions.get? syncId = none) (session : SenderSession H) :
    Extends sessions (sessions.set syncId session) := by
  intro other session' hother
  have hne : syncId ≠ other := by
    rintro rfl
    rw [h] at hother
    exact absurd hother (by simp)
  exact ⟨session', (Dict.get?_set_ne _ _ hne).trans hother, rfl, rfl⟩

theorem Extends.of_set {session session' : SenderSession H}
    (h : sessions.get? syncId = some session) (hsender : session'.sender = session.sender)
    (hinit : session'.init = session.init) :
    Extends sessions (sessions.set syncId session') := by
  intro other found hother
  rw [Dict.get?_set]
  split_ifs with heq
  · subst heq
    obtain rfl := Option.some.inj (h.symm.trans hother)
    exact ⟨session', rfl, hsender, hinit⟩
  · exact ⟨found, hother, rfl, rfl⟩

theorem Genuine.mono (hext : Extends sessions sessions') {msg : PushMsg H}
    (h : Genuine sessions msg) : Genuine sessions' msg := by
  cases msg with
  | batch msg =>
    obtain ⟨session, hget, hids⟩ := h
    obtain ⟨session', hget', hsender, hinit⟩ := hext _ _ hget
    refine ⟨session', hget', ?_⟩
    rw [SenderSession.batch, hsender, hinit]
    exact hids
  | syncEnd msg =>
    obtain ⟨session, hget, hids⟩ := h
    obtain ⟨session', hget', hsender, hinit⟩ := hext _ _ hget
    refine ⟨session', hget', ?_⟩
    rw [hsender]
    exact hids

variable {worker : WorkerNode H} {instanceId : String} {workerId : ℕ}

theorem Accounted.mono (hext : Extends sessions sessions')
    (h : Accounted sessions instanceId workerId worker) :
    Accounted sessions' instanceId workerId worker := by
  intro info hinfo
  obtain ⟨session, hget, hids⟩ := h info hinfo
  obtain ⟨session', hget', hsender, hinit⟩ := hext _ _ hget
  refine ⟨session', hget', ?_⟩
  simp only [SenderSession.batch, hsender, hinit]
  exact hids

theorem genuine_push {session : SenderSession H} (hid : session.init.syncId = syncId)
    (hget : sessions.get? syncId = some session) :
    ∀ msg ∈ session.push.1.toList, Genuine sessions msg := by
  subst hid
  have hbatch : ∀ batchId, Genuine sessions (session.sender.batchMsg session.init batchId) :=
    fun batchId => ⟨session, hget, rfl, rfl, rfl, rfl⟩
  have hend : Genuine sessions (session.sender.endMsg session.init) := ⟨session, hget, rfl, rfl⟩
  intro msg hmem
  rw [SenderSession.push] at hmem
  split at hmem
  · split_ifs at hmem
    · obtain rfl := List.mem_singleton.mp hmem
      exact hbatch _
    · obtain rfl := List.mem_singleton.mp hmem
      exact hend
  · obtain rfl := List.mem_singleton.mp hmem
    exact hbatch _
  · obtain rfl := List.mem_singleton.mp hmem
    exact hend
  · exact absurd hmem List.not_mem_nil

theorem Consistent.of_sessions (h : Consistent s) (hext : Extends s.sessions sessions')
    (hids : ∀ syncId session, sessions'.get? syncId = some session →
      session.init.syncId = syncId) : Consistent { s with sessions := sessions' } where
  ids := hids
  sent msg hmem := (h.sent msg hmem).mono hext
  accounted instanceId workerId worker hworker :=
    (h.accounted instanceId workerId worker hworker).mono hext

theorem Consistent.setSession (h : Consistent s) {session : SenderSession H}
    (hget : s.sessions.get? syncId = some session) {session' : SenderSession H}
    (hkept : session'.sender = session.sender ∧ session'.init = session.init) :
    Consistent { s with sessions := s.sessions.set syncId session' } := by
  refine h.of_sessions (Extends.of_set hget hkept.1 hkept.2) (Dict.forall_set h.ids ?_)
  rw [hkept.2]
  exact h.ids syncId session hget

theorem Consistent.send (h : Consistent s) {sent : List (PushMsg H)}
    (hsent : ∀ msg ∈ sent, Genuine s.sessions msg) : Consistent { s with sent := s.sent ++ sent } where
  ids := h.ids
  sent msg hmem := (List.mem_append.mp hmem).elim (h.sent msg) (hsent msg)
  accounted := h.accounted

variable [DecidableEq H]

def CompleteWhenSaid (s : SyncNetwork H) : Prop :=
  ∀ syncId session, s.sessions.get? syncId = some session →
    (s.status session).isComplete = true →
    s.registry.getWorkerKvKeys session.sender.instanceId session.sender.workerId
      session.sender.location = session.init.keys.toFinset

variable {registry : RegistryTree (WorkerNode H)} {f : WorkerNode H → WorkerNode H}

omit [DecidableEq H] in
theorem Consistent.actsOn (h : Consistent s)
    (hacts : ActsOn s.registry registry instanceId workerId f)
    (hf : ∀ worker, Accounted s.sessions instanceId workerId worker →
      Accounted s.sessions instanceId workerId (f worker)) :
    Consistent { s with registry := registry } where
  ids := h.ids
  sent := h.sent
  accounted instanceId' workerId' worker hworker := by
    change registry.getWorker instanceId' workerId' = some worker at hworker
    rw [hacts] at hworker
    split_ifs at hworker with hsame
    · obtain ⟨worker, hold, rfl⟩ := Option.map_eq_some_iff.mp hworker
      rw [← hsame.1, ← hsame.2]
      exact hf worker (h.accounted _ _ worker hold)
    · exact h.accounted _ _ worker hworker

theorem accounted_started {session : SenderSession H}
    (hget : sessions.get? session.init.syncId = some session)
    (h : Accounted sessions session.sender.instanceId session.sender.workerId worker) :
    Accounted sessions session.sender.instanceId session.sender.workerId
      (worker.started (session.sender.startMsg session.init)) := by
  rcases worker.syncInfo_started (session.sender.startMsg session.init) with hsame | ⟨hsync, hkeys⟩
  · rw [hsame]
    exact h
  · intro info hinfo
    obtain rfl := Option.some.inj (hsync.symm.trans hinfo)
    refine ⟨session, hget, rfl, rfl, fun key => ?_⟩
    have hempty : (worker.started (session.sender.startMsg session.init)).getKvKeys
      session.sender.location = ∅ := hkeys
    rw [hempty]
    simp

theorem accounted_received {msg : FullSyncBatchMsg H} (hmsg : Genuine sessions (.batch msg))
    (h : Accounted sessions msg.instanceId msg.workerId worker) :
    Accounted sessions msg.instanceId msg.workerId (worker.received msg) := by
  rcases worker.syncInfo_received msg with hsame | ⟨old, hold, hid, _, hsync, hkeys⟩
  · rw [hsame]
    exact h
  · intro info hinfo
    obtain rfl := Option.some.inj (hsync.symm.trans hinfo)
    obtain ⟨session, hget, _, _, hlocation, hbatch⟩ := hmsg
    obtain ⟨session', hget', hinstance, hworker, haccounted⟩ := h old hold
    rw [hid] at hget'
    obtain rfl := Option.some.inj (hget.symm.trans hget')
    refine ⟨session, hid ▸ hget, hinstance, hworker, fun key => ?_⟩
    rw [← hlocation, hkeys, hlocation, haccounted, hbatch]
    simp only [Finset.mem_insert]
    constructor
    · rintro (⟨batchId, hmem, hkey⟩ | hkey)
      · exact ⟨batchId, .inr hmem, hkey⟩
      · exact ⟨msg.batchId, .inl rfl, hkey⟩
    · rintro ⟨batchId, rfl | hmem, hkey⟩
      · exact .inr hkey
      · exact .inl ⟨batchId, hmem, hkey⟩

omit [DecidableEq H] in
theorem accounted_completed (msg : FullSyncEndMsg)
    (h : Accounted sessions msg.instanceId msg.workerId worker) :
    Accounted sessions msg.instanceId msg.workerId (worker.completed msg) := by
  rcases worker.syncInfo_completed msg with hsame | ⟨old, hold, _, hsync⟩
  · rw [hsame]
    exact h
  · rw [hsync]
    intro info hinfo
    obtain rfl := Option.some.inj hinfo
    exact h old hold

omit [DecidableEq H] in
theorem consistent_create : Consistent (create : SyncNetwork H) where
  ids _ _ h := absurd h (by simp [create])
  sent _ h := absurd h List.not_mem_nil
  accounted _ _ _ h := absurd h (by simp [create, RegistryTree.getWorker, RegistryTree.empty])

theorem Consistent.exec (h : Consistent s) (e : SyncEvent H) : Consistent (s.exec e) := by
  cases e with
  | registerWorker instanceId workerId =>
    refine ⟨h.ids, h.sent, fun instanceId' workerId' worker hworker => ?_⟩
    change (s.registry.registerWorker instanceId workerId _).getWorker _ _ = _ at hworker
    rw [RegistryTree.getWorker_registerWorker] at hworker
    split_ifs at hworker with hsame
    · intro info hinfo
      rw [← Option.some.inj hworker] at hinfo
      exact absurd hinfo (by simp [WorkerNode.create])
    · exact h.accounted instanceId' workerId' worker hworker
  | begin sender syncId keys =>
    rw [SyncNetwork.exec]
    split
    · exact h
    · rename_i hget
      exact h.of_sessions (Extends.of_absent hget (.begin sender syncId keys))
        (Dict.forall_set h.ids rfl)
  | start syncId answered =>
    rw [SyncNetwork.exec]
    split
    · exact h
    · rename_i session hget
      have hid := h.ids syncId session hget
      have hacts := h.actsOn (actsOn_handleFullSyncStart s.registry
        (session.sender.startMsg session.init)) fun worker =>
          accounted_started (by rw [hid]; exact hget)
      apply hacts.setSession hget
      split_ifs
      · exact session.onStarted_kept _
      · exact ⟨rfl, rfl⟩
  | push syncId =>
    rw [SyncNetwork.exec]
    split
    · exact h
    · rename_i session hget
      exact (h.send (genuine_push (h.ids syncId session hget) hget)).setSession hget session.push_kept
  | deliver index =>
    rw [SyncNetwork.exec]
    split
    · exact h
    · rename_i msg hmsg
      have hgenuine := h.sent msg (List.mem_of_getElem? hmsg)
      cases msg with
      | batch msg =>
        exact h.actsOn (actsOn_handleFullSyncBatch s.registry msg) fun worker =>
          accounted_received hgenuine
      | syncEnd msg =>
        exact h.actsOn (actsOn_handleFullSyncEnd s.registry msg) fun worker =>
          accounted_completed msg
  | query syncId answered canExitFreeze =>
    rw [SyncNetwork.exec]
    split
    · exact h
    · rename_i session hget
      split_ifs
      · exact h.setSession hget (session.onStatus_kept _ canExitFreeze)
      · exact h

def Covered (s : SyncNetwork H) : Prop :=
  ∀ instanceId workerId worker, s.registry.getWorker instanceId workerId = some worker →
    ∀ info, worker.syncInfo = some info → info.state = .completed →
      ∀ session, s.sessions.get? info.syncId = some session → KeysReceived session info

theorem completeWhenSaid_iff_covered (h : Consistent s) : CompleteWhenSaid s ↔ Covered s := by
  constructor
  · intro hcomplete instanceId workerId worker hworker info hinfo hstate session hget key hkey
    obtain ⟨session', hget', rfl, rfl, hkeys⟩ :=
      h.accounted instanceId workerId worker hworker info hinfo
    obtain rfl := Option.some.inj (hget.symm.trans hget')
    have hsaid : (s.status session).isComplete = true := by
      simp only [status, KVController.handleFullSyncStatus, FullSyncTracker.isComplete,
        getSyncInfo_of_worker hworker, hinfo, Option.any_some, h.ids _ session hget, hstate,
        and_self, decide_true]
    have hregistry := hcomplete info.syncId session hget hsaid
    rw [RegistryTree.getWorkerKvKeys, hworker, Option.map_some, Option.getD_some] at hregistry
    rw [← hkeys, hregistry]
    exact List.mem_toFinset.mpr hkey
  · intro hcovered syncId session hget hsaid
    simp only [status, KVController.handleFullSyncStatus, FullSyncTracker.isComplete,
      FullSyncTracker.getSyncInfo, h.ids _ session hget, Option.any_eq_true, Option.bind_eq_some_iff,
      decide_eq_true_eq] at hsaid
    obtain ⟨info, ⟨worker, hworker, hinfo⟩, hid, hstate⟩ := hsaid
    subst hid
    obtain ⟨session', hget', _, _, hkeys⟩ := h.accounted _ _ worker hworker info hinfo
    obtain rfl := Option.some.inj (hget.symm.trans hget')
    rw [RegistryTree.getWorkerKvKeys, hworker, Option.map_some, Option.getD_some]
    ext key
    rw [hkeys, List.mem_toFinset]
    constructor
    · rintro ⟨batchId, _, hkey⟩
      exact List.mem_of_mem_take (List.mem_of_mem_drop hkey)
    · exact hcovered _ _ worker hworker info hinfo hstate session hget key

omit [DecidableEq H] in
theorem Covered.of_sessions (hcovered : Covered s) (h : Consistent s)
    (hext : Extends s.sessions sessions') : Covered { s with sessions := sessions' } := by
  intro instanceId workerId worker hworker info hinfo hstate session' hget'
  obtain ⟨session, hget, _⟩ := h.accounted instanceId workerId worker hworker info hinfo
  obtain ⟨found, hfound, hsender, hinit⟩ := hext _ _ hget
  obtain rfl := Option.some.inj (hfound.symm.trans hget')
  have hkeys := hcovered instanceId workerId worker hworker info hinfo hstate session hget
  simp only [KeysReceived, SenderSession.batch, hsender, hinit]
  exact hkeys

omit [DecidableEq H] in
theorem Covered.actsOn (hcovered : Covered s)
    (hacts : ActsOn s.registry registry instanceId workerId f) (hf : ∀ worker, f worker = worker ∨
      ∀ info, (f worker).syncInfo = some info → info.state ≠ .completed) :
    Covered { s with registry := registry } := by
  intro instanceId' workerId' worker hworker
  change registry.getWorker instanceId' workerId' = some worker at hworker
  rw [hacts] at hworker
  split_ifs at hworker with hsame
  · obtain ⟨old, hold, rfl⟩ := Option.map_eq_some_iff.mp hworker
    rcases hf old with hkept | hopen
    · rw [hkept]
      exact hcovered instanceId workerId old hold
    · exact fun info hinfo hstate => absurd hstate (hopen info hinfo)
  · exact hcovered instanceId' workerId' worker hworker

omit [DecidableEq H] in
theorem covered_handleFullSyncEnd_iff (hcovered : Covered s) (msg : FullSyncEndMsg) :
    Covered { s with registry := KVController.handleFullSyncEnd s.registry msg } ↔
      ∀ info, FullSyncTracker.getSyncInfo s.registry msg.instanceId msg.workerId = some info →
        info.syncId = msg.syncId →
        ∀ session, s.sessions.get? msg.syncId = some session → KeysReceived session info := by
  have hacts := actsOn_handleFullSyncEnd s.registry msg
  constructor
  · intro hafter info hinfo hid session hget
    obtain ⟨worker, hworker, hsync⟩ := Option.bind_eq_some_iff.mp hinfo
    have hself := hacts.self
    rw [hworker, Option.map_some, WorkerNode.completed_of_syncId hsync hid] at hself
    exact hafter msg.instanceId msg.workerId _ hself _ rfl rfl session (hid ▸ hget)
  · intro hends instanceId' workerId' worker hworker info hinfo hstate session hget
    change (KVController.handleFullSyncEnd s.registry msg).getWorker _ _ = some worker at hworker
    rw [hacts] at hworker
    split_ifs at hworker with hsame
    · obtain ⟨old, hold, rfl⟩ := Option.map_eq_some_iff.mp hworker
      rcases old.syncInfo_completed msg with hkept | ⟨info', hinfo', hid, hdone⟩
      · rw [hkept] at hinfo
        exact hcovered _ _ old hold info hinfo hstate session hget
      · rw [hdone] at hinfo
        obtain rfl := Option.some.inj hinfo
        have hsync : FullSyncTracker.getSyncInfo s.registry msg.instanceId msg.workerId =
            some info' := by rw [getSyncInfo_of_worker hold, hinfo']
        exact hends info' hsync hid session (hid ▸ hget)
    · exact hcovered _ _ worker hworker info hinfo hstate session hget

theorem covered_exec_iff (h : Consistent s) (hcovered : Covered s) (e : SyncEvent H) :
    Covered (s.exec e) ↔ EndsCovered s e := by
  cases e with
  | registerWorker instanceId workerId =>
    refine iff_of_true (fun instanceId' workerId' worker hworker => ?_) trivial
    change (s.registry.registerWorker instanceId workerId _).getWorker _ _ = _ at hworker
    rw [RegistryTree.getWorker_registerWorker] at hworker
    split_ifs at hworker with hsame
    · intro info hinfo
      rw [← Option.some.inj hworker] at hinfo
      exact absurd hinfo (by simp [WorkerNode.create])
    · exact hcovered instanceId' workerId' worker hworker
  | begin sender syncId keys =>
    refine iff_of_true ?_ trivial
    rw [exec]
    split
    · exact hcovered
    · rename_i hget
      exact hcovered.of_sessions h (Extends.of_absent hget _)
  | start syncId answered =>
    refine iff_of_true ?_ trivial
    rw [exec]
    split
    · exact hcovered
    · rename_i session hget
      have hid := h.ids syncId session hget
      have hacts := actsOn_handleFullSyncStart s.registry (session.sender.startMsg session.init)
      have hconsistent := h.actsOn hacts fun worker => accounted_started (by rw [hid]; exact hget)
      have hstarted := hcovered.actsOn hacts fun worker =>
        (worker.syncInfo_started (session.sender.startMsg session.init)).imp_right
          fun hsync info hinfo => by
            obtain rfl := Option.some.inj (hsync.1.symm.trans hinfo)
            simp
      apply hstarted.of_sessions hconsistent
      split_ifs
      · exact Extends.of_set hget (session.onStarted_kept _).1 (session.onStarted_kept _).2
      · exact Extends.of_set hget rfl rfl
  | push syncId =>
    refine iff_of_true ?_ trivial
    rw [exec]
    split
    · exact hcovered
    · rename_i session hget
      exact hcovered.of_sessions h (Extends.of_set hget session.push_kept.1 session.push_kept.2)
  | deliver index =>
    rw [exec]
    split
    · rename_i hnone
      refine iff_of_true hcovered fun msg hmsg => ?_
      rw [hnone] at hmsg
      exact absurd hmsg (by simp)
    · rename_i msg hmsg
      cases msg with
      | batch msg =>
        refine iff_of_true (hcovered.actsOn (actsOn_handleFullSyncBatch s.registry msg)
          fun worker => ?_) fun msg' hmsg' => ?_
        · refine (worker.syncInfo_received msg).imp_right ?_
          rintro ⟨old, _, _, hstate, hsync, _⟩ info hinfo
          obtain rfl := Option.some.inj (hsync.symm.trans hinfo)
          rw [hstate]
          simp
        · rw [hmsg] at hmsg'
          exact absurd hmsg' (by simp)
      | syncEnd msg =>
        refine (covered_handleFullSyncEnd_iff hcovered msg).trans ⟨fun hends msg' hmsg' => ?_,
          fun hends => hends msg hmsg⟩
        obtain rfl := PushMsg.syncEnd.inj (Option.some.inj (hmsg.symm.trans hmsg'))
        exact hends
  | query syncId answered canExitFreeze =>
    refine iff_of_true ?_ trivial
    rw [exec]
    split
    · exact hcovered
    · rename_i session hget
      split_ifs
      · exact hcovered.of_sessions h (Extends.of_set hget (session.onStatus_kept _ _).1
          (session.onStatus_kept _ _).2)
      · exact hcovered

omit [DecidableEq H] in
theorem covered_create : Covered (create : SyncNetwork H) := fun _ _ _ h =>
  absurd h (by simp [create, RegistryTree.getWorker, RegistryTree.empty])

theorem completeWhenSaid_iff_endsCovered (events : List (SyncEvent H)) :
    (∀ pre rest, events = pre ++ rest → CompleteWhenSaid (Execution.final exec create pre)) ↔
      Execution.Along exec EndsCovered create events := by
  rw [Execution.forall_prefix_iff]
  have hcreate : CompleteWhenSaid (create : SyncNetwork H) :=
    (completeWhenSaid_iff_covered consistent_create).mpr covered_create
  rw [and_iff_right hcreate]
  refine Execution.along_iff_along (I := fun s => Consistent s ∧ Covered s) (Q := fun _ _ => True)
    (fun s e h _ hends => ⟨h.1.exec e, (covered_exec_iff h.1 h.2 e).mpr hends⟩)
    (fun s e h _ => (completeWhenSaid_iff_covered (h.1.exec e)).trans (covered_exec_iff h.1 h.2 e))
    ⟨consistent_create, covered_create⟩ (Execution.along_of_forall (fun _ _ => trivial) _ _)

def overtaken : List (SyncEvent ℕ) :=
  [.registerWorker "i" 0, .begin ⟨"i", 0, "LocalCPUBackend", 2000, 3, by decide⟩ "s" [7],
    .start "s" true, .push "s", .push "s", .deliver 1]

theorem not_completeWhenSaid_overtaken :
    ¬ ∀ pre rest, overtaken = pre ++ rest → CompleteWhenSaid (Execution.final exec create pre) := by
  intro h
  have hcomplete := h overtaken [] (List.append_nil _).symm "s" _ rfl (by decide)
  exact absurd hcomplete (by decide)

end SyncNetwork

end LMCache
