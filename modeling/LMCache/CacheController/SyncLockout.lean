import LMCache.CacheController.FullSyncRuns

namespace LMCache

open RegistryTree KVController Execution FullSyncTracker Option

variable {H : Type}

namespace WorkerNode

variable (worker : WorkerNode H)

def SyncingWith (syncId : String) : Prop :=
  ∃ info, worker.syncInfo = some info ∧ info.state = .syncing ∧ info.syncId = syncId

def Rejects (syncId : String) : Prop :=
  ∃ other, worker.SyncingWith other ∧ other ≠ syncId

theorem rejects_iff (syncId : String) :
    (worker.syncInfo.any fun info => decide (info.state = .syncing ∧ info.syncId ≠ syncId)) = true ↔
      worker.Rejects syncId := by
  rw [any_eq_true]
  constructor
  · rintro ⟨info, hinfo, hstate⟩
    obtain ⟨hsyncing, hne⟩ := of_decide_eq_true hstate
    exact ⟨info.syncId, ⟨info, hinfo, hsyncing, rfl⟩, hne⟩
  · rintro ⟨_, ⟨info, hinfo, hsyncing, rfl⟩, hne⟩
    exact ⟨info, hinfo, decide_eq_true ⟨hsyncing, hne⟩⟩

variable [DecidableEq H] {worker : WorkerNode H} {id : String}

theorem syncingWith_started (msg : FullSyncStartMsg) :
    (worker.started msg).SyncingWith id ↔
      msg.syncId = id ∧ ¬ worker.Rejects msg.syncId ∨ worker.SyncingWith id := by
  by_cases hreject : worker.Rejects msg.syncId
  · rw [started, if_pos ((worker.rejects_iff _).mpr hreject)]
    simp [hreject]
  · rw [started, if_neg (mt (worker.rejects_iff _).mp hreject)]
    constructor
    · rintro ⟨info, hinfo, -, rfl⟩
      rw [← some.inj hinfo]
      exact .inl ⟨rfl, hreject⟩
    · intro h
      refine ⟨_, rfl, rfl, h.elim And.left fun hsync => ?_⟩
      by_contra hne
      exact hreject ⟨id, hsync, fun heq => hne heq.symm⟩

theorem syncingWith_received (msg : FullSyncBatchMsg H) :
    (worker.received msg).SyncingWith id ↔ worker.SyncingWith id := by
  rcases worker.syncInfo_received msg with hsame | ⟨info, hold, -, -, hnew, -⟩
  · rw [hsame]
  · simp only [SyncingWith, hold, hnew, some.injEq, exists_eq_left']

omit [DecidableEq H] in
theorem syncingWith_completed (msg : FullSyncEndMsg) :
    (worker.completed msg).SyncingWith id ↔ worker.SyncingWith id ∧ msg.syncId ≠ id := by
  cases hsync : worker.syncInfo with
  | none => simp [SyncingWith, completed, hsync]
  | some info =>
    by_cases hid : info.syncId = msg.syncId
    · rw [completed_of_syncId hsync hid]
      simp only [SyncingWith, hsync, some.injEq, exists_eq_left']
      refine iff_of_false (fun h => absurd h.1 (by simp)) ?_
      rintro ⟨⟨-, hsame⟩, hne⟩
      exact hne (hid.symm.trans hsame)
    · have hkept : worker.completed msg = worker := by
        simp only [completed, hsync, ne_eq, hid, not_false_eq_true, if_true]
      rw [hkept, iff_self_and]
      rintro ⟨info', hinfo', -, rfl⟩ heq
      rw [hsync, some.injEq] at hinfo'
      exact hid (hinfo' ▸ heq.symm)

end WorkerNode

namespace RegistryTree

def Syncing (registry : RegistryTree (WorkerNode H)) (instanceId : String) (workerId : ℕ)
    (syncId : String) : Prop :=
  ∃ worker, registry.getWorker instanceId workerId = some worker ∧ worker.SyncingWith syncId

variable {registry registry' : RegistryTree (WorkerNode H)} {instanceId : String} {workerId : ℕ}

theorem syncing_actsOn {instanceId' : String} {workerId' : ℕ} {f : WorkerNode H → WorkerNode H}
    (h : ActsOn registry registry' instanceId' workerId' f) (syncId : String) :
    registry'.Syncing instanceId workerId syncId ↔ ∃ worker,
      registry.getWorker instanceId workerId = some worker ∧
        (if instanceId' = instanceId ∧ workerId' = workerId then f worker else worker).SyncingWith
          syncId := by
  rw [Syncing, h]
  split_ifs with hsame
  · obtain ⟨rfl, rfl⟩ := hsame
    simp [map_eq_some_iff]
  · rfl

variable [DecidableEq H]

theorem accepted_iff (msg : FullSyncStartMsg) :
    (handleFullSyncStart registry msg).1.accepted = true ↔
      ∃ worker, registry.getWorker msg.instanceId msg.workerId = some worker ∧
        ¬ worker.Rejects msg.syncId := by
  cases hworker : registry.getWorker msg.instanceId msg.workerId with
  | none =>
    simp [handleFullSyncStart, startSync, getSyncInfo_of_none hworker, setSyncInfo, hworker]
  | some worker =>
    have hiff := worker.rejects_iff msg.syncId
    by_cases hreject : worker.Rejects msg.syncId
    · simp only [handleFullSyncStart, startSync,
        getSyncInfo_of_worker hworker, if_pos (hiff.mpr hreject)]
      simp [hreject]
    · simp only [handleFullSyncStart, startSync,
        getSyncInfo_of_worker hworker, if_neg (mt hiff.mp hreject), setSyncInfo,
        hworker]
      simp [hreject]

def startAccepted (msg : FullSyncStartMsg) : ℕ → RegistryTree (WorkerNode H) → Bool
  | 0, _ => false
  | retries + 1, registry =>
      (handleFullSyncStart registry msg).1.accepted ||
        startAccepted msg retries (handleFullSyncStart registry msg).2

theorem startAccepted_of_rejects {msg : FullSyncStartMsg}
    (h : ¬ (handleFullSyncStart registry msg).1.accepted = true) (retries : ℕ) :
    startAccepted msg retries registry = false := by
  have hkept : (handleFullSyncStart registry msg).2 = registry := by
    simp only [handleFullSyncStart] at h ⊢
    split_ifs at h ⊢
    · exact absurd rfl h
    · exact absurd rfl h
    · rfl
  induction retries with
  | zero => rfl
  | succ retries ih => rw [startAccepted, hkept, ih, Bool.or_false, Bool.eq_false_iff.mpr h]

end RegistryTree

namespace SyncNetwork

variable [DecidableEq H] {s : SyncNetwork H} {instanceId : String} {workerId : ℕ}

def Starts (s : SyncNetwork H) (instanceId : String) (workerId : ℕ) (syncId : String) :
    SyncEvent H → Prop
  | .start key _ => ∃ session, s.sessions.get? key = some session ∧
      session.sender.instanceId = instanceId ∧ session.sender.workerId = workerId ∧
      session.init.syncId = syncId ∧ (handleFullSyncStart s.registry
        (session.sender.startMsg session.init)).1.accepted = true
  | _ => False

def Ends (s : SyncNetwork H) (instanceId : String) (workerId : ℕ) (syncId : String) :
    SyncEvent H → Prop
  | .deliver index => ∃ msg, s.sent[index]? = some (.syncEnd msg) ∧ msg.instanceId = instanceId ∧
      msg.workerId = workerId ∧ msg.syncId = syncId
  | .registerWorker instanceId' workerId' => instanceId' = instanceId ∧ workerId' = workerId
  | _ => False

def Ended (instanceId : String) (workerId : ℕ) (syncId : String) :
    SyncNetwork H → List (SyncEvent H) → Prop
  | _, [] => False
  | s, ev :: evs => s.Ends instanceId workerId syncId ev ∨
      Ended instanceId workerId syncId (s.exec ev) evs

def AllEnded (instanceId : String) (workerId : ℕ) : SyncNetwork H → List (SyncEvent H) → Prop
  | _, [] => True
  | s, ev :: evs => (∀ syncId, s.Starts instanceId workerId syncId ev →
      Ended instanceId workerId syncId (s.exec ev) evs) ∧
        AllEnded instanceId workerId (s.exec ev) evs

def NotLockedOut (s : SyncNetwork H) (sender : FullSyncSender) (syncId : String) (keys : List H) :
    Prop :=
  (∀ id, ¬ s.registry.Syncing sender.instanceId sender.workerId id) ∨
    startAccepted (sender.startMsg (sender.initializeSync syncId keys))
      sender.maxRetryCount s.registry = true

theorem syncing_start {session : SenderSession H} {syncId : String}
    (hget : s.sessions.get? syncId = some session) (answered : Bool) (id : String) :
    (handleFullSyncStart s.registry (session.sender.startMsg session.init)).2.Syncing
        instanceId workerId id ↔
      s.Starts instanceId workerId id (.start syncId answered) ∨
        s.registry.Syncing instanceId workerId id := by
  rw [syncing_actsOn (actsOn_handleFullSyncStart _ _)]
  have hstarts : s.Starts instanceId workerId id (.start syncId answered) ↔
      (session.sender.instanceId = instanceId ∧ session.sender.workerId = workerId) ∧
        session.init.syncId = id ∧ ∃ worker, s.registry.getWorker session.sender.instanceId
          session.sender.workerId = some worker ∧ ¬ worker.Rejects session.init.syncId := by
    simp only [Starts, hget, some.injEq, exists_eq_left', accepted_iff, and_assoc]
    rfl
  rw [hstarts]
  by_cases hsame : session.sender.instanceId = instanceId ∧ session.sender.workerId = workerId
  · obtain ⟨rfl, rfl⟩ := hsame
    simp only [FullSyncSender.startMsg, and_self, if_true, true_and, WorkerNode.syncingWith_started,
      RegistryTree.Syncing]
    constructor
    · rintro ⟨worker, hworker, ⟨hid, hadmits⟩ | hsync⟩
      · exact .inl ⟨hid, worker, hworker, hadmits⟩
      · exact .inr ⟨worker, hworker, hsync⟩
    · rintro (⟨hid, worker, hworker, hadmits⟩ | ⟨worker, hworker, hsync⟩)
      · exact ⟨worker, hworker, .inl ⟨hid, hadmits⟩⟩
      · exact ⟨worker, hworker, .inr hsync⟩
  · simp only [FullSyncSender.startMsg, hsame, false_and, false_or, if_false, RegistryTree.Syncing]

theorem syncing_exec (s : SyncNetwork H) (ev : SyncEvent H) (id : String) :
    (s.exec ev).registry.Syncing instanceId workerId id ↔
      s.Starts instanceId workerId id ev ∨
        s.registry.Syncing instanceId workerId id ∧ ¬ s.Ends instanceId workerId id ev := by
  cases ev with
  | registerWorker instanceId' workerId' =>
    simp only [exec, RegistryTree.Syncing, getWorker_registerWorker, Starts, Ends, false_or]
    split_ifs with hsame
    · simp [WorkerNode.SyncingWith, WorkerNode.create, hsame]
    · simp [hsame]
  | begin sender syncId keys | push syncId =>
    simp only [exec, Starts, Ends, false_or, not_false_eq_true, and_true]
    split <;> rfl
  | start syncId answered =>
    cases hget : s.sessions.get? syncId with
    | none => simp [exec, Starts, Ends, hget]
    | some session =>
      simp only [exec, hget, syncing_start hget answered, Ends, not_false_eq_true, and_true]
  | deliver index =>
    simp only [exec, Starts, false_or]
    cases hmsg : s.sent[index]? with
    | none => simp [Ends, hmsg]
    | some msg =>
      cases msg with
      | batch msg =>
        simp only [handle, syncing_actsOn (actsOn_handleFullSyncBatch _ _), Ends, hmsg]
        simp only [apply_ite (WorkerNode.SyncingWith · id), WorkerNode.syncingWith_received, ite_self]
        simp [RegistryTree.Syncing]
      | syncEnd msg =>
        simp only [handle, syncing_actsOn (actsOn_handleFullSyncEnd _ _), Ends, hmsg,
          some.injEq, PushMsg.syncEnd.injEq, exists_eq_left']
        by_cases hsame : msg.instanceId = instanceId ∧ msg.workerId = workerId
        · simp only [WorkerNode.syncingWith_completed, hsame, true_and, if_true,
            RegistryTree.Syncing, ← and_assoc, exists_and_right]
        · simp only [RegistryTree.Syncing, ← and_assoc, hsame, false_and, if_false,
            not_false_eq_true, and_true]
  | query syncId answered canExitFreeze =>
    simp only [exec, Starts, Ends, false_or, not_false_eq_true, and_true]
    split
    · rfl
    · split_ifs <;> rfl

theorem syncing_final_iff (s : SyncNetwork H) (evs : List (SyncEvent H)) :
    (∃ id, (final exec s evs).registry.Syncing instanceId workerId id) ↔
      (∃ id, s.registry.Syncing instanceId workerId id ∧ ¬ Ended instanceId workerId id s evs) ∨
        ¬ AllEnded instanceId workerId s evs := by
  induction evs generalizing s with
  | nil => simp [Ended, AllEnded]
  | cons ev evs ih =>
    rw [final_cons, ih]
    simp only [syncing_exec, Ended, AllEnded, not_or, not_and_or, not_forall]
    constructor
    · rintro (⟨id, hstart | ⟨hsync, hends⟩, hopen⟩ | hrest)
      · exact .inr (.inl ⟨id, hstart, hopen⟩)
      · exact .inl ⟨id, hsync, hends, hopen⟩
      · exact .inr (.inr hrest)
    · rintro (⟨id, hsync, hends, hopen⟩ | ⟨id, hstart, hopen⟩ | hrest)
      · exact .inl ⟨id, .inr ⟨hsync, hends⟩, hopen⟩
      · exact .inl ⟨id, .inl hstart, hopen⟩
      · exact .inr hrest

theorem notLockedOut_iff_not_syncing (h : Consistent s) (sender : FullSyncSender) {syncId : String}
    (hfresh : s.sessions.get? syncId = none) (keys : List H) :
    s.NotLockedOut sender syncId keys ↔
      ¬ ∃ id, s.registry.Syncing sender.instanceId sender.workerId id := by
  rw [NotLockedOut, not_exists]
  refine or_iff_left_of_imp fun haccepted id hsync => ?_
  obtain ⟨worker, hworker, info, hinfo, hstate, rfl⟩ := hsync
  obtain ⟨session, hget, -⟩ := h.accounted _ _ worker hworker info hinfo
  have hrejects : worker.Rejects syncId := by
    refine ⟨info.syncId, ⟨info, hinfo, hstate, rfl⟩, fun heq => ?_⟩
    rw [heq, hfresh] at hget
    cases hget
  have hno : startAccepted (sender.startMsg (sender.initializeSync syncId keys))
      sender.maxRetryCount s.registry = false :=
    startAccepted_of_rejects (fun hyes => ?_) sender.maxRetryCount
  · rw [hno] at haccepted
    cases haccepted
  · obtain ⟨worker', hworker', hadmits⟩ := (accepted_iff _).mp hyes
    obtain rfl := some.inj (hworker.symm.trans hworker')
    exact hadmits hrejects

theorem notLockedOut_iff_allEnded (evs : List (SyncEvent H)) (sender : FullSyncSender)
    {syncId : String} (hfresh : (final exec create evs).sessions.get? syncId = none)
    (keys : List H) :
    (final exec create evs).NotLockedOut sender syncId keys ↔
      AllEnded sender.instanceId sender.workerId create evs := by
  have hconsistent : Consistent (final exec (create : SyncNetwork H) evs) :=
    invariant_final (Q := fun _ _ => True) (fun s ev hs _ => hs.exec ev) consistent_create
      (along_of_forall (fun _ _ => trivial) _ _)
  have hnone : ∀ id, ¬ (create : SyncNetwork H).registry.Syncing sender.instanceId sender.workerId id := by
    rintro id ⟨worker, hworker, -⟩
    simp [create, getWorker, empty] at hworker
  rw [notLockedOut_iff_not_syncing hconsistent sender hfresh keys, syncing_final_iff, not_or, not_not]
  refine and_iff_right ?_
  rintro ⟨id, hsync, -⟩
  exact hnone id hsync

def leaver : FullSyncSender := ⟨"i", 0, "LocalCPUBackend", 2000, 3, Nat.succ_pos _⟩

def leftEarly : List (SyncEvent ℕ) :=
  [.registerWorker "i" 0, .begin leaver "s" [7], .start "s" true, .push "s", .push "s",
    .query "s" true true]

theorem notLockedOut_iff_allEnded_leftEarly :
    (final exec create leftEarly).NotLockedOut leaver "t" [8] ↔
      AllEnded leaver.instanceId leaver.workerId create leftEarly :=
  notLockedOut_iff_allEnded leftEarly leaver (by decide) [8]

theorem not_notLockedOut_leftEarly :
    ((final exec create leftEarly).sessions.get? "s").map SenderSession.phase = some .finished ∧
      ¬ (final exec create leftEarly).NotLockedOut leaver "t" [8] := by
  refine ⟨by decide, ?_⟩
  rintro (hidle | haccepted)
  · exact hidle "s" ⟨_, rfl, _, rfl, rfl, rfl⟩
  · revert haccepted
    decide

end SyncNetwork

end LMCache
