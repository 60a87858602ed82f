import LMCache.StorageBackend.CacheView

namespace LMCache

open List

namespace CPUState

open Execution

variable {st : CPUState}

section Steps

theorem consistent_step (h : st.policy.Consistent) (event : CPUEvent) :
    (st.exec event).policy.Consistent := by
  cases event with
  | allocate => exact h
  | submitPutTask key obj =>
    change (if obj < st.nextObj then st.submitPutTask key obj else st).policy.Consistent
    rw [submitPutTask]
    split_ifs
    · exact h
    · exact h.updateOnPut key
    · exact h
  | getBlocking key =>
    change (st.getBlocking key).policy.Consistent
    rw [getBlocking]
    split <;> exact h
  | refCountDown obj =>
    change (if 0 < st.held obj then st.refCountDown obj else st).policy.Consistent
    split_ifs <;> exact h
  | contains key pin =>
    change (st.contains key pin).policy.Consistent
    rw [contains, modifyKey]
    split_ifs
    · split <;> exact h
    · exact h
  | pin key | unpin key =>
    change (st.modifyKey key _).policy.Consistent
    rw [modifyKey]
    split <;> exact h
  | touchCache => exact consistent_touchKeys _ st h
  | remove key =>
    change (st.remove key).2.policy.Consistent
    rw [remove]
    split
    · exact h
    · split
      · exact h
      · rename_i hevict
        exact (CachePolicy.forgets_updateOnForceEvict hevict).consistent h
  | queueEvict key =>
    change (st.queueEvict key).policy.Consistent
    rw [queueEvict]
    split_ifs <;> exact h
  | evictOne =>
    change st.evictOne.2.policy.Consistent
    rw [evictOne]
    split
    · exact h
    · rename_i hnone
      exact (CachePolicy.forgets_getEvictCandidates hnone).1.consistent h
    · rename_i hcandidate
      rw [evictKey]
      split <;> exact (CachePolicy.forgets_getEvictCandidates hcandidate).1.consistent h
  | evictBatch batchSize => exact consistent_evictBatch h
  | drain =>
    change st.drain.policy.Consistent
    rw [drain]
    split <;> exact h
  | send =>
    change st.send.policy.Consistent
    rw [send]
    split_ifs <;> exact h

theorem sequenced_step (h : st.Sequenced) (event : CPUEvent) : (st.exec event).Sequenced := by
  cases event with
  | allocate => exact ⟨h.consecutive, h.complete⟩
  | submitPutTask key obj =>
    change (if obj < st.nextObj then st.submitPutTask key obj else st).Sequenced
    rw [submitPutTask]
    split_ifs
    · exact h
    · exact (queues_addKvOp _ _ _).sequenced ⟨h.consecutive, h.complete⟩
    · exact h
  | getBlocking key => exact (silent_getBlocking st key).queues.sequenced h
  | refCountDown obj =>
    change (if 0 < st.held obj then st.refCountDown obj else st).Sequenced
    split_ifs
    · exact ⟨h.consecutive, h.complete⟩
    · exact h
  | contains key pin => exact (silent_contains st key pin).queues.sequenced h
  | pin key => exact (silent_modifyKey st key MemObj.pin).queues.sequenced h
  | unpin key => exact (silent_modifyKey st key MemObj.unpin).queues.sequenced h
  | touchCache => exact (silent_touchKeys _ st).queues.sequenced h
  | remove key =>
    change (st.remove key).2.Sequenced
    rw [remove]
    split
    · exact h
    · split <;> exact ⟨h.consecutive, h.complete⟩
  | queueEvict key =>
    change (st.queueEvict key).Sequenced
    rw [queueEvict]
    split_ifs
    · exact (queues_addKvOp _ _ _).sequenced ⟨h.consecutive, h.complete⟩
    · exact h
  | evictOne =>
    change st.evictOne.2.Sequenced
    rw [evictOne]
    split
    · exact h
    · exact ⟨h.consecutive, h.complete⟩
    · rw [evictKey]
      split
      · exact ⟨h.consecutive, h.complete⟩
      · exact (queues_addKvOp _ _ _).sequenced ⟨h.consecutive, h.complete⟩
  | evictBatch batchSize =>
    change (st.evictBatch batchSize).2.Sequenced
    rw [evictBatch]
    split
    · exact h
    · exact ⟨h.consecutive, h.complete⟩
    · exact (evictLayers_reports _ _).2.2.2.sequenced ⟨h.consecutive, h.complete⟩
  | drain => exact sequenced_drain h
  | send => exact sequenced_send h

theorem agrees_step_iff (h : st.Agrees) (hconsistent : st.policy.Consistent) (event : CPUEvent) :
    (st.exec event).Agrees ↔ KeepsView st event := by
  cases event with
  | allocate => exact ⟨fun _ => trivial, fun _ => h.congr (fun _ => Iff.rfl) rfl rfl⟩
  | submitPutTask key obj =>
    refine ⟨fun _ => trivial, fun _ => ?_⟩
    change (if obj < st.nextObj then st.submitPutTask key obj else st).Agrees
    split_ifs
    · exact agrees_submitPutTask h
    · exact h
  | getBlocking key => exact ⟨fun _ => trivial, fun _ => (silent_getBlocking st key).agrees h⟩
  | refCountDown obj =>
    refine ⟨fun _ => trivial, fun _ => ?_⟩
    change (if 0 < st.held obj then st.refCountDown obj else st).Agrees
    split_ifs
    · exact h.congr (fun _ => Iff.rfl) rfl rfl
    · exact h
  | contains key pin => exact ⟨fun _ => trivial, fun _ => (silent_contains st key pin).agrees h⟩
  | pin key => exact ⟨fun _ => trivial, fun _ => (silent_modifyKey st key MemObj.pin).agrees h⟩
  | unpin key => exact ⟨fun _ => trivial, fun _ => (silent_modifyKey st key MemObj.unpin).agrees h⟩
  | touchCache => exact ⟨fun _ => trivial, fun _ => (silent_touchKeys _ st).agrees h⟩
  | remove key => exact ⟨fun _ => trivial, fun _ => agrees_remove h hconsistent⟩
  | queueEvict key => exact agrees_queueEvict_iff h
  | evictOne => exact agrees_evictOne_iff h
  | evictBatch batchSize => exact agrees_evictBatch_iff h hconsistent
  | drain =>
    refine ⟨fun _ => trivial, fun _ => ?_⟩
    change st.drain.Agrees
    rw [drain]
    split
    · exact h
    · exact h.congr (fun _ => Iff.rfl) rfl rfl
  | send =>
    refine ⟨fun _ => trivial, fun _ => ?_⟩
    change st.send.Agrees
    rw [send]
    split_ifs
    · exact h
    · exact h.congr (fun _ => Iff.rfl) rfl rfl

end Steps

section Settled

structure Quiet (st : CPUState) : Prop where
  removing : st.removing = []
  messageQueue : st.messageQueue = []
  opsToSend : st.opsToSend = []

def cachedHashes (st : CPUState) : Finset ℕ := (st.hotCache.keys.map HotKey.chunkHash).toFinset

def SeesCache (st : CPUState) : Prop :=
  st.sent.flatten.foldl WorkerNode.applyOp ∅ = st.cachedHashes

instance (st : CPUState) : Decidable st.SeesCache :=
  inferInstanceAs (Decidable (st.sent.flatten.foldl WorkerNode.applyOp ∅ = st.cachedHashes))

theorem mem_cachedHashes (st : CPUState) (hash : ℕ) :
    hash ∈ st.cachedHashes ↔ ∃ key, st.Cached key ∧ key.chunkHash = hash := by
  rw [cachedHashes, mem_toFinset, mem_map]
  exact exists_congr fun key => and_congr_left fun _ => (Dict.contains_iff _ _).symm

theorem seesCache_iff (hsequenced : st.Sequenced) (hquiet : st.Quiet) :
    st.SeesCache ↔ viewOf st.added = st.cachedHashes := by
  have hcomplete := hsequenced.complete
  rw [numbered, hquiet.opsToSend, hquiet.messageQueue, append_nil, append_nil] at hcomplete
  rw [SeesCache, viewOf, ← hcomplete, foldl_map]
  rfl

theorem Agrees.viewOf_eq (h : st.Agrees) (hremoving : st.removing = []) :
    viewOf st.added = st.cachedHashes := by
  ext hash
  rw [mem_cachedHashes]
  constructor
  · intro hmem
    refine (h.known hash hmem).resolve_right fun hpending => ?_
    obtain ⟨key, hkey, _⟩ := hpending
    rw [hremoving] at hkey
    exact absurd hkey not_mem_nil
  · rintro ⟨key, hkey, rfl⟩
    exact h.cached key hkey

def evicts (keys : List HotKey) : List (OpType × ℕ) :=
  keys.map fun key => (.kvEvict, key.chunkHash)

theorem mem_viewOf_evicts (ops : List (OpType × ℕ)) (keys : List HotKey) (hash : ℕ) :
    hash ∈ viewOf (ops ++ evicts keys) ↔ hash ∈ viewOf ops ∧ ∀ key ∈ keys, hash ≠ key.chunkHash := by
  induction keys generalizing ops with
  | nil => simp [evicts]
  | cons key keys ih =>
    have hsplit : ops ++ evicts (key :: keys) = (ops ++ [(.kvEvict, key.chunkHash)]) ++ evicts keys := by
      rw [append_assoc]
      rfl
    rw [hsplit, ih, mem_viewOf_evict, forall_mem_cons]
    tauto

theorem final_queueEvict (keys : List HotKey) (st : CPUState) (hremoving : st.removing = keys) :
    (final exec st (keys.map .queueEvict)).hotCache = st.hotCache ∧
      (final exec st (keys.map .queueEvict)).removing = [] ∧
      (final exec st (keys.map .queueEvict)).added = st.added ++ evicts keys := by
  induction keys generalizing st with
  | nil => exact ⟨rfl, hremoving, (append_nil _).symm⟩
  | cons key keys ih =>
    have hstep : st.exec (.queueEvict key) =
        { st with removing := keys }.addKvOp .kvEvict key := by
      change st.queueEvict key = _
      rw [queueEvict, hremoving, if_pos mem_cons_self, erase_cons_head]
    rw [map_cons, final_cons, hstep]
    obtain ⟨hhot, hnone, hadded⟩ := ih ({ st with removing := keys }.addKvOp .kvEvict key) rfl
    exact ⟨hhot, hnone, hadded.trans (append_assoc _ _ _)⟩

theorem final_drain (queue : List (OpType × ℕ)) (st : CPUState) (hqueue : st.messageQueue = queue) :
    (final exec st (replicate queue.length .drain)).hotCache = st.hotCache ∧
      (final exec st (replicate queue.length .drain)).removing = st.removing ∧
      (final exec st (replicate queue.length .drain)).messageQueue = [] ∧
      (final exec st (replicate queue.length .drain)).added = st.added := by
  induction queue generalizing st with
  | nil => exact ⟨rfl, rfl, hqueue, rfl⟩
  | cons op queue ih =>
    have hstep : (st.exec .drain).hotCache = st.hotCache ∧ (st.exec .drain).removing = st.removing ∧
        (st.exec .drain).messageQueue = queue ∧ (st.exec .drain).added = st.added := by
      change st.drain.hotCache = _ ∧ st.drain.removing = _ ∧ st.drain.messageQueue = _ ∧
        st.drain.added = _
      rw [drain, hqueue]
      exact ⟨rfl, rfl, rfl, rfl⟩
    obtain ⟨hhot, hremoving, hrest, hadded⟩ := hstep
    obtain ⟨hhot', hremoving', hempty, hadded'⟩ := ih (st.exec .drain) hrest
    rw [length_cons, replicate_succ, final_cons]
    exact ⟨hhot'.trans hhot, hremoving'.trans hremoving, hempty, hadded'.trans hadded⟩

theorem exists_quiet (st : CPUState) : ∃ tail, (final exec st tail).Quiet ∧
    (final exec st tail).hotCache = st.hotCache ∧
    (final exec st tail).added = st.added ++ evicts st.removing := by
  obtain ⟨hhot, hremoving, hadded⟩ := final_queueEvict st.removing st rfl
  generalize hevicted : final exec st (st.removing.map .queueEvict) = evicted at *
  obtain ⟨hhot', hremoving', hqueue, hadded'⟩ := final_drain evicted.messageQueue evicted rfl
  generalize hdrained : final exec evicted (replicate evicted.messageQueue.length .drain) =
    drained at *
  refine ⟨st.removing.map .queueEvict ++
    (replicate evicted.messageQueue.length .drain ++ [.send]), ?_⟩
  rw [final_append, hevicted, final_append, hdrained]
  change drained.send.Quiet ∧ drained.send.hotCache = _ ∧ drained.send.added = _
  rw [send]
  split_ifs with hempty
  · exact ⟨⟨hremoving'.trans hremoving, hqueue, hempty⟩, hhot'.trans hhot, hadded'.trans hadded⟩
  · exact ⟨⟨hremoving'.trans hremoving, hqueue, rfl⟩, hhot'.trans hhot, hadded'.trans hadded⟩

theorem agrees_of_settled (settled : CPUState) (hhot : settled.hotCache = st.hotCache)
    (hadded : settled.added = st.added ++ evicts st.removing)
    (hview : viewOf settled.added = settled.cachedHashes) : st.Agrees := by
  have hmem : ∀ hash, hash ∈ viewOf (st.added ++ evicts st.removing) ↔
      ∃ key, st.Cached key ∧ key.chunkHash = hash := by
    intro hash
    rw [← hadded, hview, mem_cachedHashes]
    refine exists_congr fun key => ?_
    rw [Cached, hhot, Cached]
  refine ⟨fun key hkey => ?_, fun hash hhash => ?_⟩
  · have hknown := (hmem key.chunkHash).mpr ⟨key, hkey, rfl⟩
    exact ((mem_viewOf_evicts _ _ _).mp hknown).1
  · by_cases hpending : ∃ key ∈ st.removing, key.chunkHash = hash
    · exact .inr hpending
    · refine .inl ((hmem hash).mp ((mem_viewOf_evicts _ _ _).mpr ⟨hhash, fun key hkey heq => ?_⟩))
      exact hpending ⟨key, hkey, heq.symm⟩

end Settled

theorem agrees_prefix_iff (kind : PolicyKind) (events : List CPUEvent) :
    (∀ pre rest, events = pre ++ rest → (final exec (start kind) pre).Agrees) ↔
      Along exec KeepsView (start kind) events := by
  have hstart := agrees_start kind
  refine (forall_prefix_iff (I := Agrees) _ _).trans ((and_iff_right hstart).trans ?_)
  exact along_iff_along (Q := fun _ _ => True) (I := fun st => st.Agrees ∧ st.policy.Consistent)
    (fun st event h _ hkeeps => ⟨(agrees_step_iff h.1 h.2 event).mpr hkeeps,
      consistent_step h.2 event⟩)
    (fun st event h _ => agrees_step_iff h.1 h.2 event)
    ⟨hstart, CachePolicy.consistent_init kind⟩ (along_of_forall (fun _ _ => trivial) _ _)

theorem sequenced_final (kind : PolicyKind) (events : List CPUEvent) :
    (final exec (start kind) events).Sequenced :=
  invariant_final (I := Sequenced) (Q := fun _ _ => True) (fun _ event h _ => sequenced_step h event)
    (sequenced_start kind) (along_of_forall (fun _ _ => trivial) _ _)

theorem controller_sees_cache (kind : PolicyKind) (events : List CPUEvent) :
    (∀ pre rest, events = pre ++ rest → (final exec (start kind) pre).Sequenced) ∧
      (Along exec KeepsView (start kind) events → ∀ pre rest, events = pre ++ rest →
        (final exec (start kind) pre).Quiet → (final exec (start kind) pre).SeesCache) ∧
      (¬ Along exec KeepsView (start kind) events → ∃ pre rest tail, events = pre ++ rest ∧
        (final exec (start kind) (pre ++ tail)).Quiet ∧
          ¬ (final exec (start kind) (pre ++ tail)).SeesCache) := by
  refine ⟨fun pre _ _ => sequenced_final kind pre, fun hkeeps pre rest heq hquiet => ?_,
    fun hnot => ?_⟩
  · have hagrees := (agrees_prefix_iff kind events).mpr hkeeps pre rest heq
    exact (seesCache_iff (sequenced_final kind pre) hquiet).mpr (hagrees.viewOf_eq hquiet.removing)
  · by_contra hall
    refine hnot ((agrees_prefix_iff kind events).mp fun pre rest heq => ?_)
    obtain ⟨tail, hquiet, hhot, hadded⟩ := exists_quiet (final exec (start kind) pre)
    rw [← final_append] at hquiet hhot hadded
    refine agrees_of_settled _ hhot hadded ?_
    by_contra hview
    exact hall ⟨pre, rest, tail, heq, hquiet, fun hsees =>
      hview ((seesCache_iff (sequenced_final kind _) hquiet).mp hsees)⟩

def removeLayer : List CPUEvent :=
  storeLayer 0 ++ [.remove (layerKey 0), .queueEvict (layerKey 0), .drain, .drain, .send]

theorem controller_sees_removed : ∀ pre rest, removeLayer = pre ++ rest →
    (final exec (start .lru) pre).Quiet → (final exec (start .lru) pre).SeesCache := by
  refine (controller_sees_cache .lru removeLayer).2.1 ⟨trivial, trivial, trivial, trivial, ?_, trivial,
    trivial, trivial, trivial⟩
  exact fun _ key' hkey' => absurd hkey' Bool.false_ne_true

theorem not_controller_sees_again :
    ¬ ∀ pre rest, storeLayer 0 ++ [.allocate, .remove (layerKey 0), .submitPutTask (layerKey 0) 1,
        .queueEvict (layerKey 0), .drain, .drain, .drain, .send] = pre ++ rest →
      (final exec (start .lru) pre).Quiet → (final exec (start .lru) pre).SeesCache := by
  intro h
  have hsees := h _ [] (append_nil _).symm ⟨by decide, by decide, rfl⟩
  revert hsees
  decide

end CPUState

end LMCache
