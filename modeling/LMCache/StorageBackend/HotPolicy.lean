import LMCache.StorageBackend.CacheView
import LMCache.StorageBackend.PolicyCalls

namespace LMCache

namespace CPUState

open CachePolicy

variable {st st' : CPUState} {key : HotKey} {keys : List HotKey} {batchSize : ℕ}

def layerCalls : List HotKey → CPUState → List (PolicyCall HotKey ℕ)
  | [], _ => []
  | key :: keys, st =>
      match st.hotCache.get? key with
      | none => []
      | some _ =>
          .updateOnForceEvict key ::
            match st.policy.updateOnForceEvict key with
            | none => []
            | some policy =>
                layerCalls keys { st with policy := policy, hotCache := st.hotCache.erase key }

def calls (st : CPUState) : CPUEvent → List (PolicyCall HotKey ℕ)
  | .submitPutTask key obj =>
      if obj < st.nextObj then if st.hotCache.contains key then [] else [.updateOnPut key] else []
  | .touchCache => touchCalls st.keysInRequest.reverse st.policy st.hotCache
  | .remove key =>
      match st.hotCache.get? key with
      | none => []
      | some _ => [.updateOnForceEvict key]
  | .evictOne => [.getEvictCandidates st.canEvict st.hotCache]
  | .evictBatch batchSize =>
      .getEvictCandidates st.canEvict st.hotCache ::
        match st.policy.getEvictCandidates st.canEvict st.hotCache with
        | some (some key, policy) =>
            layerCalls (key.splitLayers batchSize) { st with policy := policy }
        | _ => []
  | _ => []

def PolicyClear (st : CPUState) : CPUEvent → Prop
  | .touchCache => st.policy.kind ≠ .fifo →
      ∀ key ∈ st.keysInRequest, st.hotCache.contains key = true
  | .evictBatch batchSize => st.policy.kind = .lfu →
      ∀ key, st.policy.leastUsed st.canEvict st.hotCache = some key →
        key ∈ (key.splitLayers batchSize).takeWhile st.hotCache.contains
  | _ => True

def Settled (st : CPUState) : Prop :=
  st.policy.kind = .lfu → st.policy.Keeps st.hotCache fun _ => False

structure Called (st st' : CPUState) (calls : List (PolicyCall HotKey ℕ)) : Prop where
  follows : Follows after st.policy calls st'.policy
  kind : st'.policy.kind = st.policy.kind
  settled : st'.Settled

theorem called_same (h : st.Settled) (hpolicy : st'.policy = st.policy)
    (hdict : st'.hotCache = st.hotCache) : Called st st' [] := by
  refine ⟨?_, by rw [hpolicy], ?_⟩
  · rw [hpolicy]
    exact .nil _
  · rw [Settled, hpolicy, hdict]
    exact h

theorem Settled.exact (h : st.Settled) : st.policy.kind = .lfu → st.policy.Exact :=
  fun hlfu => (h hlfu).exact

theorem Settled.scanClear (h : st.Settled) : st.policy.ScanClear st.canEvict st.hotCache := by
  intro hlfu p hp
  have hmem := (List.takeWhile_prefix _).subset hp
  have hget := ((h hlfu).exact.mem_iff p.1 p.2).mp hmem
  refine ((h hlfu).known p.2 ?_).resolve_right fun hfalse => hfalse
  rw [Dict.contains, hget]
  rfl

theorem knows_of_stored (h : st.Settled) (hstored : st.hotCache.contains key = true) :
    st.policy.Knows st.hotCache key := by
  rw [Knows]
  cases hkind : st.policy.kind with
  | lru | mru => exact hstored
  | fifo => trivial
  | lfu => exact (h hkind).tracked key hstored

theorem called_touchKeys (keys : List HotKey) (st : CPUState) (h : st.Settled)
    (hknows : ∀ key ∈ keys, st.policy.Knows st.hotCache key) :
    Called st (touchKeys keys st) (touchCalls keys st.policy st.hotCache) := by
  induction keys generalizing st with
  | nil => exact called_same h rfl rfl
  | cons key keys ih =>
    obtain ⟨policy, hotCache, hhit⟩ :=
      exists_updateOnHit (hknows key List.mem_cons_self) h.exact
    have hkind := (hit_of_updateOnHit hhit).kind
    have hrest := ih { st with policy := policy, hotCache := hotCache }
      (fun hlfu => (h (hkind ▸ hlfu)).updateOnHit hhit)
      fun key' hkey' => (hknows key' (List.mem_cons_of_mem _ hkey')).updateOnHit hhit
    rw [touchKeys, touchCalls, hhit]
    exact ⟨(follows_updateOnHit hhit).append hrest.follows, hrest.kind.trans hkind, hrest.settled⟩

theorem called_submitPutTask (h : st.Settled) (key : HotKey) (obj : ℕ) :
    Called st (st.exec (.submitPutTask key obj)) (st.calls (.submitPutTask key obj)) := by
  change Called st (if obj < st.nextObj then st.submitPutTask key obj else st)
    (if obj < st.nextObj then if st.hotCache.contains key then [] else [.updateOnPut key] else [])
  rw [submitPutTask]
  split_ifs with hlt hstored
  · exact called_same h rfl rfl
  · refine ⟨follows_updateOnPut _ _, kind_updateOnPut _ _, fun hlfu => ?_⟩
    have hlfu' := (kind_updateOnPut st.policy key).symm.trans hlfu
    have hkeeps := h hlfu'
    have hset := fun key' => st.hotCache.contains_set_iff key key' obj
    refine hkeeps.updateOnPut hlfu' (fun freq hfreq => ?_) (fun key' => (hset key').mp)
      (fun key' hkey' => (hset key').mpr (.inr hkey')) (.inl ((hset key).mpr (.inl rfl)))
      fun _ hfalse => hfalse
    refine absurd ((hkeeps.known key ?_).resolve_right fun hfalse => hfalse) hstored
    rw [Dict.contains, hfreq]
    rfl
  · exact called_same h rfl rfl

theorem called_remove (h : st.Settled) (key : HotKey) :
    Called st (st.exec (.remove key)) (st.calls (.remove key)) := by
  change Called st (st.remove key).2 (match st.hotCache.get? key with
    | none => []
    | some _ => [.updateOnForceEvict key])
  rw [remove]
  cases st.hotCache.get? key with
  | none => exact called_same h rfl rfl
  | some obj =>
    obtain ⟨policy, hevict⟩ := exists_updateOnForceEvict h.exact key
    have hkind := (forgets_updateOnForceEvict hevict).kind
    dsimp only
    rw [hevict]
    exact ⟨follows_updateOnForceEvict hevict, hkind,
      fun hlfu => (h (hkind ▸ hlfu)).updateOnForceEvict (hkind ▸ hlfu) hevict⟩

theorem called_evictOne (h : st.Settled) : Called st (st.exec .evictOne) (st.calls .evictOne) := by
  change Called st st.evictOne.2 [.getEvictCandidates st.canEvict st.hotCache]
  obtain ⟨found, policy, hfound⟩ := exists_getEvictCandidates h.scanClear h.exact
  have hfollows := follows_getEvictCandidates h hfound
  have hkind := (forgets_getEvictCandidates hfound).1.kind
  rw [evictOne, hfound]
  cases found with
  | none =>
    obtain ⟨rfl, _⟩ := none_of_getEvictCandidates hfound
    exact ⟨hfollows, rfl, h⟩
  | some key =>
    obtain ⟨obj, hget, _⟩ := (candidate_of_getEvictCandidates hfound).stored
    dsimp only
    rw [evictKey, hget]
    exact ⟨hfollows, hkind, fun hlfu => (h (hkind ▸ hlfu)).getEvictCandidates (hkind ▸ hlfu) hfound⟩

theorem called_popLayers (candidate : HotKey) (keys : List HotKey) (oldMemObjs : List ℕ) (st : CPUState)
    (h : st.policy.kind = .lfu → st.policy.Keeps (st.hotCache.erase candidate) fun _ => False) :
    Follows after st.policy (layerCalls keys st) (popLayers keys oldMemObjs st).2.policy ∧
      ((popLayers keys oldMemObjs st).2.policy.kind = .lfu →
        (popLayers keys oldMemObjs st).2.policy.Keeps
          ((popLayers keys oldMemObjs st).2.hotCache.erase candidate) fun _ => False) := by
  induction keys generalizing oldMemObjs st with
  | nil => exact ⟨.nil _, h⟩
  | cons key keys ih =>
    rw [popLayers, layerCalls]
    cases st.hotCache.get? key with
    | none => exact ⟨.nil _, h⟩
    | some obj =>
      obtain ⟨policy, hevict⟩ := exists_updateOnForceEvict (fun hlfu => (h hlfu).exact) key
      have hkind := (forgets_updateOnForceEvict hevict).kind
      dsimp only
      rw [hevict]
      obtain ⟨hrest, hkeeps⟩ := ih (oldMemObjs ++ [obj])
        { st with policy := policy, hotCache := st.hotCache.erase key } fun hlfu => by
          refine ((h (hkind ▸ hlfu)).updateOnForceEvict (hkind ▸ hlfu) hevict).mono
            (fun key' => ?_) fun key' => Or.imp_left ?_
          · simp only [Dict.contains_erase_iff]
            tauto
          · simp only [Dict.contains_erase_iff]
            tauto
      exact ⟨(follows_updateOnForceEvict hevict).append hrest, hkeeps⟩

theorem called_evictBatch (h : st.Settled) (hclear : PolicyClear st (.evictBatch batchSize)) :
    Called st (st.exec (.evictBatch batchSize)) (st.calls (.evictBatch batchSize)) := by
  obtain ⟨found, policy, hfound⟩ := exists_getEvictCandidates h.scanClear h.exact
  have hfollows := follows_getEvictCandidates h hfound
  have hforgets := (forgets_getEvictCandidates hfound).1
  change Called st (st.evictBatch batchSize).2 (.getEvictCandidates st.canEvict st.hotCache ::
    match st.policy.getEvictCandidates st.canEvict st.hotCache with
    | some (some key, policy) => layerCalls (key.splitLayers batchSize) { st with policy := policy }
    | _ => [])
  rw [evictBatch, hfound]
  cases found with
  | none =>
    obtain ⟨rfl, _⟩ := none_of_getEvictCandidates hfound
    exact ⟨hfollows, rfl, h⟩
  | some key =>
    obtain ⟨hhot, hpolicy, _⟩ := evictLayers_reports (key.splitLayers batchSize)
      { st with policy := policy }
    obtain ⟨hrest, hkeeps⟩ := called_popLayers key (key.splitLayers batchSize) []
      { st with policy := policy } fun hlfu =>
        (h (hforgets.kind ▸ hlfu)).getEvictCandidates (hforgets.kind ▸ hlfu) hfound
    have hkind := (popped_popLayers (key.splitLayers batchSize) []
      { st with policy := policy }).forgets.kind.trans hforgets.kind
    dsimp only
    refine ⟨?_, ?_, fun hlfu => ?_⟩
    · rw [hpolicy]
      exact hfollows.append hrest
    · rw [hpolicy]
      exact hkind
    · rw [hpolicy] at hlfu ⊢
      rw [hhot]
      have hlfu' := hkind.symm.trans hlfu
      have hreached := hclear hlfu' key (leastUsed_of_getEvictCandidates hlfu' hfound)
      refine (hkeeps hlfu).mono (fun key' hstored => ?_)
        fun key' => Or.imp_left fun hstored => ((Dict.contains_erase_iff _ _ _).mp hstored).1
      refine (Dict.contains_erase_iff _ _ _).mpr ⟨hstored, ?_⟩
      rintro rfl
      rw [Dict.contains, get?_popLayers _ _ { st with policy := policy } st.hotCache.contains
        (fun _ _ => rfl) (key'.nodup_splitLayers batchSize)
        (hforgets.consistent (h hlfu').exact.consistent), if_pos hreached] at hstored
      cases hstored

theorem called_exec (h : st.Settled) (event : CPUEvent) (hclear : PolicyClear st event) :
    Called st (st.exec event) (st.calls event) := by
  cases event with
  | allocate => exact called_same h rfl rfl
  | submitPutTask key obj => exact called_submitPutTask h key obj
  | getBlocking key =>
    change Called st (st.getBlocking key) []
    rw [getBlocking]
    split <;> exact called_same h rfl rfl
  | refCountDown obj =>
    change Called st (if 0 < st.held obj then st.refCountDown obj else st) []
    split_ifs <;> exact called_same h rfl rfl
  | contains key pin =>
    change Called st (st.contains key pin) []
    rw [contains, modifyKey]
    split_ifs
    · split <;> exact called_same h rfl rfl
    · exact called_same h rfl rfl
  | pin key | unpin key =>
    change Called st (st.modifyKey key _) []
    rw [modifyKey]
    split <;> exact called_same h rfl rfl
  | touchCache =>
    refine called_touchKeys _ st h fun key hkey => ?_
    rw [List.mem_reverse] at hkey
    rcases Classical.em (st.policy.kind = .fifo) with hfifo | hfifo
    · rw [Knows, hfifo]
      trivial
    · exact knows_of_stored h (hclear hfifo key hkey)
  | remove key => exact called_remove h key
  | queueEvict key =>
    change Called st (st.queueEvict key) []
    rw [queueEvict]
    split_ifs <;> exact called_same h rfl rfl
  | evictOne => exact called_evictOne h
  | evictBatch batchSize => exact called_evictBatch h hclear
  | drain =>
    change Called st st.drain []
    rw [drain]
    split <;> exact called_same h rfl rfl
  | send =>
    change Called st st.send []
    rw [send]
    split_ifs <;> exact called_same h rfl rfl

end CPUState

end LMCache
