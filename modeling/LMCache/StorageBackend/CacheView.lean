import LMCache.StorageBackend.KVMessages

namespace LMCache

open CachePolicy List

namespace CPUState

open Execution

variable {st st' : CPUState} {key : HotKey} {obj batchSize : ℕ} {keys : List HotKey}

structure Silent (st st' : CPUState) : Prop where
  cached : ∀ key, st'.Cached key ↔ st.Cached key
  removing : st'.removing = st.removing
  queues : Queues st st' []

theorem Silent.refl (st : CPUState) : Silent st st := ⟨fun _ => Iff.rfl, rfl, .refl st⟩

theorem Silent.agrees (h : Silent st st') (hagrees : st.Agrees) : st'.Agrees :=
  hagrees.congr h.cached h.removing (h.queues.added.trans (append_nil _))

theorem silent_getBlocking (st : CPUState) (key : HotKey) : Silent st (st.getBlocking key) := by
  rw [getBlocking]
  split
  · exact .refl st
  · exact ⟨fun _ => Iff.rfl, rfl, .of_eq rfl rfl rfl rfl rfl⟩

theorem silent_modifyKey (st : CPUState) (key : HotKey) (f : MemObj → MemObj) :
    Silent st (st.modifyKey key f) := by
  rw [modifyKey]
  split
  · exact .refl st
  · exact ⟨fun _ => Iff.rfl, rfl, .of_eq rfl rfl rfl rfl rfl⟩

theorem silent_contains (st : CPUState) (key : HotKey) (pin : Bool) :
    Silent st (st.contains key pin) := by
  rw [contains]
  split_ifs
  · obtain ⟨hcached, hremoving, hqueues⟩ := silent_modifyKey
      { st with keysInRequest := st.keysInRequest ++ [key] } key MemObj.pin
    exact ⟨hcached, hremoving, ⟨hqueues.sent, hqueues.opsToSend, hqueues.sequenceNumber,
      hqueues.messageQueue, hqueues.added⟩⟩
  · exact .refl st

theorem silent_touchKeys (keys : List HotKey) (st : CPUState) : Silent st (touchKeys keys st) := by
  induction keys generalizing st with
  | nil => exact ⟨fun _ => Iff.rfl, rfl, .of_eq rfl rfl rfl rfl rfl⟩
  | cons key keys ih =>
    rw [touchKeys]
    split
    · exact .refl st
    · rename_i policy hotCache hupdate
      have hhit := hit_of_updateOnHit hupdate
      obtain ⟨hcached, hremoving, hqueues⟩ := ih { st with policy := policy, hotCache := hotCache }
      refine ⟨fun key' => (hcached key').trans ?_, hremoving, ⟨hqueues.sent, hqueues.opsToSend,
        hqueues.sequenceNumber, hqueues.messageQueue, hqueues.added⟩⟩
      rw [Cached, Cached, Dict.contains, Dict.contains, hhit.get? key']

theorem cached_erase {d : Dict HotKey ℕ} (key key' : HotKey) :
    (d.erase key).contains key' = true ↔ key' ≠ key ∧ d.contains key' = true := by
  rw [Dict.contains, Dict.get?_erase]
  split_ifs with heq
  · exact ⟨fun h => absurd h (by simp), fun h => absurd heq.symm h.1⟩
  · exact ⟨fun h => ⟨fun heq' => heq heq'.symm, h⟩, fun h => h.2⟩

theorem agrees_submitPutTask (h : st.Agrees) : (st.submitPutTask key obj).Agrees := by
  rw [submitPutTask]
  split_ifs
  · exact h
  · refine agrees_admitted h key (fun key' => ?_) rfl rfl
    change (st.hotCache.set key obj).contains key' = true ↔ _
    rw [Dict.contains_iff, Dict.mem_keys_set, Cached, Dict.contains_iff]

theorem agrees_remove (h : st.Agrees) (hconsistent : st.policy.Consistent) :
    (st.remove key).2.Agrees := by
  rw [remove]
  split
  · exact h
  · obtain ⟨policy, hevict⟩ := hconsistent.isSome_updateOnForceEvict key
    rw [hevict]
    exact agrees_removed h (fun key' => cached_erase key key') rfl rfl

def KeepsView (st : CPUState) : CPUEvent → Prop
  | .queueEvict key => key ∈ st.removing → ∀ key', st.Cached key' → key'.chunkHash ≠ key.chunkHash
  | .evictOne => ∀ key policy,
      st.policy.getEvictCandidates st.canEvict st.hotCache = some (some key, policy) →
        ∀ key', key' ≠ key → st.Cached key' → key'.chunkHash ≠ key.chunkHash
  | .evictBatch batchSize => ∀ key policy,
      st.policy.getEvictCandidates st.canEvict st.hotCache = some (some key, policy) →
        (key.splitLayers batchSize).takeWhile st.hotCache.contains = [] ∨
        (∃ key', st.Cached key' ∧ key' ∉ (key.splitLayers batchSize).takeWhile st.hotCache.contains ∧
          key'.chunkHash = key.chunkHash) ∨
        ∃ key' ∈ st.removing, key'.chunkHash = key.chunkHash
  | _ => True

theorem agrees_queueEvict_iff (h : st.Agrees) :
    (st.queueEvict key).Agrees ↔ KeepsView st (.queueEvict key) := by
  rw [queueEvict]
  split_ifs with hmem
  · refine (agrees_evicted_iff h key ?_ ?_ ?_ ?_).trans
      ⟨fun hother _ => hother, fun hother => hother hmem⟩
    · exact fun _ h => h
    · exact fun _ h _ => h
    · exact fun key' hne => mem_erase_of_ne fun heq => hne (congrArg HotKey.chunkHash heq)
    · rfl
  · exact ⟨fun _ hmem' => absurd hmem' hmem, fun _ => h⟩

theorem agrees_evictOne_iff (h : st.Agrees) : st.evictOne.2.Agrees ↔ KeepsView st .evictOne := by
  rw [evictOne]
  split
  · rename_i hraised
    exact ⟨fun _ key policy hcandidate => absurd (hraised.symm.trans hcandidate) (by simp), fun _ => h⟩
  · rename_i policy' hnone
    exact ⟨fun _ key policy hcandidate => absurd (hnone.symm.trans hcandidate) (by simp),
      fun _ => h.congr (fun _ => Iff.rfl) rfl rfl⟩
  · rename_i key policy hcandidate
    obtain ⟨obj, hget, _⟩ := (candidate_of_getEvictCandidates hcandidate).stored
    have hevicted : { st with policy := policy }.evictKey key =
        ({ st with policy := policy }.pop key obj).addKvOp .kvEvict key := by
      rw [evictKey]
      dsimp only
      rw [hget]
    rw [hevicted]
    refine (agrees_evicted_iff h key ?_ ?_ ?_ ?_).trans ?_
    · exact fun key' hkey' => ((cached_erase key key').mp hkey').2
    · intro key' hkey' hne
      exact (cached_erase key key').mpr ⟨fun heq => hne (congrArg HotKey.chunkHash heq), hkey'⟩
    · exact fun _ _ => Iff.rfl
    · rfl
    · constructor
      · intro hother key' policy' hcandidate' key'' hne hkey''
        obtain ⟨hkey, _⟩ := Prod.mk.inj (Option.some.inj (hcandidate.symm.trans hcandidate'))
        obtain rfl := Option.some.inj hkey
        exact hother key'' ((cached_erase key key'').mpr ⟨hne, hkey''⟩)
      · intro hother key' hkey'
        obtain ⟨hne, hkey'⟩ := (cached_erase key key').mp hkey'
        exact hother key policy hcandidate key' hne hkey'

theorem get?_popLayers (keys : List HotKey) (oldMemObjs : List ℕ) (st : CPUState)
    (stored : HotKey → Bool) (hstored : ∀ key ∈ keys, stored key = st.hotCache.contains key)
    (hnodup : keys.Nodup) (hconsistent : st.policy.Consistent) (key' : HotKey) :
    (popLayers keys oldMemObjs st).2.hotCache.get? key' =
      if key' ∈ keys.takeWhile stored then none else st.hotCache.get? key' := by
  induction keys generalizing oldMemObjs st with
  | nil => simp [popLayers]
  | cons key keys ih =>
    obtain ⟨hnot, hrest⟩ := nodup_cons.mp hnodup
    have hkey := hstored key mem_cons_self
    rw [popLayers]
    cases hget : st.hotCache.get? key with
    | none =>
      rw [Dict.contains, hget] at hkey
      rw [takeWhile_cons_of_neg (by rw [hkey]; simp)]
      exact (if_neg not_mem_nil).symm
    | some obj =>
      rw [Dict.contains, hget] at hkey
      obtain ⟨policy, hevict⟩ := hconsistent.isSome_updateOnForceEvict key
      have hafter : ∀ k ∈ keys, stored k = (st.hotCache.erase key).contains k := by
        intro k hk
        have hne : key ≠ k := fun heq => hnot (heq ▸ hk)
        rw [Dict.contains, Dict.get?_erase, if_neg hne]
        exact hstored k (mem_cons_of_mem _ hk)
      dsimp only
      rw [hevict]
      dsimp only
      rw [ih _ { st with policy := policy, hotCache := st.hotCache.erase key } hafter hrest
        ((forgets_updateOnForceEvict hevict).consistent hconsistent),
        takeWhile_cons_of_pos hkey, Dict.get?_erase]
      by_cases hmem : key' ∈ keys.takeWhile stored
      · rw [if_pos hmem, if_pos (mem_cons_of_mem _ hmem)]
      · rw [if_neg hmem]
        refine if_congr ?_ rfl rfl
        rw [mem_cons, or_iff_left hmem]
        exact eq_comm

theorem reports_popLayers (keys : List HotKey) (oldMemObjs : List ℕ) (st : CPUState) :
    (popLayers keys oldMemObjs st).2.removing = st.removing ∧
      Queues st (popLayers keys oldMemObjs st).2 [] := by
  induction keys generalizing oldMemObjs st with
  | nil => exact ⟨rfl, .refl st⟩
  | cons key keys ih =>
    rw [popLayers]
    split
    · exact ⟨rfl, .refl st⟩
    · split
      · exact ⟨rfl, .refl st⟩
      · rename_i policy _
        obtain ⟨hremoving, hqueues⟩ := ih (oldMemObjs ++ [_])
          { st with policy := policy, hotCache := st.hotCache.erase key }
        exact ⟨hremoving, hqueues.sent, hqueues.opsToSend, hqueues.sequenceNumber,
          hqueues.messageQueue, hqueues.added⟩

theorem evictLayers_reports (layers : List HotKey) (st : CPUState) :
    (st.evictLayers layers).2.hotCache = (popLayers layers [] st).2.hotCache ∧
      (st.evictLayers layers).2.policy = (popLayers layers [] st).2.policy ∧
      (st.evictLayers layers).2.removing = st.removing ∧ Queues st (st.evictLayers layers).2 [] := by
  obtain ⟨hremoving, hqueues⟩ := reports_popLayers layers [] st
  cases hresult : (popLayers layers [] st).1 with
  | none =>
    rw [evictLayers_of_none hresult]
    exact ⟨rfl, rfl, hremoving, hqueues⟩
  | some objs =>
    rw [evictLayers_of_some hresult]
    exact ⟨rfl, rfl, hremoving, hqueues.sent, hqueues.opsToSend, hqueues.sequenceNumber,
      hqueues.messageQueue, hqueues.added⟩

theorem agrees_evictBatch_iff (h : st.Agrees) (hconsistent : st.policy.Consistent) :
    (st.evictBatch batchSize).2.Agrees ↔ KeepsView st (.evictBatch batchSize) := by
  rw [evictBatch]
  split
  · rename_i hraised
    exact ⟨fun _ key policy hcandidate => absurd (hraised.symm.trans hcandidate) (by simp), fun _ => h⟩
  · rename_i policy' hnone
    exact ⟨fun _ key policy hcandidate => absurd (hnone.symm.trans hcandidate) (by simp),
      fun _ => h.congr (fun _ => Iff.rfl) rfl rfl⟩
  · rename_i key policy hcandidate
    have hforgets := (forgets_getEvictCandidates hcandidate).1
    have hpolicy : ({ st with policy := policy }).Agrees := h.congr (fun _ => Iff.rfl) rfl rfl
    obtain ⟨hhot, _, hremoving, hqueues⟩ := evictLayers_reports (key.splitLayers batchSize)
      { st with policy := policy }
    refine (agrees_popped_iff hpolicy key.chunkHash
      ((key.splitLayers batchSize).takeWhile st.hotCache.contains) (fun key' => ?_)
      (fun key' hkey' => ⟨?_, ?_⟩) hremoving (hqueues.added.trans (append_nil _))).trans ?_
    · rw [Cached, hhot, Dict.contains, get?_popLayers _ _ { st with policy := policy }
        st.hotCache.contains (fun _ _ => rfl) (key.nodup_splitLayers batchSize) (hforgets.consistent hconsistent)]
      split_ifs with hmem
      · exact ⟨fun h => absurd h (by simp), fun h => absurd hmem h.2⟩
      · exact ⟨fun h => ⟨h, hmem⟩, fun h => h.1⟩
    · exact all_eq_true.mp all_takeWhile key' hkey'
    · exact HotKey.chunkHash_splitLayers ((List.takeWhile_prefix _).subset hkey')
    · constructor
      · intro hstays key' policy' hcandidate'
        obtain ⟨hkey, _⟩ := Prod.mk.inj (Option.some.inj (hcandidate.symm.trans hcandidate'))
        obtain rfl := Option.some.inj hkey
        exact hstays
      · exact fun hkeeps => hkeeps key policy hcandidate

theorem consistent_touchKeys (keys : List HotKey) (st : CPUState) (h : st.policy.Consistent) :
    (touchKeys keys st).policy.Consistent := by
  induction keys generalizing st with
  | nil => exact h
  | cons key keys ih =>
    rw [touchKeys]
    split
    · exact h
    · rename_i hupdate
      exact ih _ (h.updateOnHit hupdate)

theorem consistent_evictBatch (h : st.policy.Consistent) :
    (st.evictBatch batchSize).2.policy.Consistent := by
  rw [evictBatch]
  split
  · exact h
  · rename_i hnone
    exact (forgets_getEvictCandidates hnone).1.consistent h
  · rename_i key policy hcandidate
    have hforgets := (forgets_getEvictCandidates hcandidate).1
    obtain ⟨_, hpolicy, _⟩ := evictLayers_reports (key.splitLayers batchSize)
      { st with policy := policy }
    rw [hpolicy]
    exact (popped_popLayers _ _ _).forgets.consistent (hforgets.consistent h)

end CPUState

end LMCache
