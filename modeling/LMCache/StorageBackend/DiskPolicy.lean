import LMCache.StorageBackend.DiskRequests

namespace LMCache

open List DiskCacheMetadata

variable {K Λ X E : Type} [DecidableEq K]

namespace DiskState

open CachePolicy

variable {cfg : LocalDiskConfig K Λ} {st st' : DiskState K Λ X E} {key key' : K} {size jobId : ℕ}
  {f : DiskCacheMetadata Λ X → DiskCacheMetadata Λ X} {memory : Option (ℕ → ℕ)}

section Puts

theorem called_room (h : st.Settled)
    (hclear : ∀ turn ∈ roomTurns cfg.maxCacheSize size st.dict.items.length (st.insertPutTask key),
      turn.policy.ScanClear canEvict turn.dict) :
    Called st (makeRoom cfg.maxCacheSize size st.dict.items.length (st.insertPutTask key)).2
      ((roomTurns cfg.maxCacheSize size st.dict.items.length (st.insertPutTask key)).map
        askCandidate) := by
  have hinserted : (st.insertPutTask key).Settled :=
    ⟨⟨h.registered.nodup, fun task htask =>
      mem_append_left _ (h.registered.registered task htask)⟩, h.keeps⟩
  have hmade := called_makeRoom cfg.maxCacheSize st.dict.items.length (st.insertPutTask key)
    hinserted (Nat.le_refl _) hclear
  exact ⟨hmade.follows, hmade.kind, hmade.settled⟩

theorem called_submitPutTask (h : st.Settled) (memoryObj : KVObject Λ X E)
    (hlocked : st.locked = false) (hclear : PolicyClear cfg st (.submitPutTask key memoryObj size)) :
    Called st (st.submitPutTask cfg key memoryObj size) (st.putCalls cfg key size) := by
  rw [submitPutTask, putCalls]
  split_ifs with hregistered hroom
  · exact called_same h rfl (fun _ => rfl) rfl rfl
  · obtain ⟨hscan, hfresh⟩ := hclear hlocked hregistered
    have hmade := called_room h hscan
    have hevicted := (roomMade cfg.maxCacheSize size st.dict.items.length (st.insertPutTask key)
      (Nat.le_refl _)).evicted
    cases hresult : makeRoom cfg.maxCacheSize size st.dict.items.length (st.insertPutTask key) with
    | mk result st' =>
      rw [hresult] at hroom hmade hevicted
      obtain rfl : result = .room := hroom
      have hkind := kind_updateOnPut st'.policy key
      have hpending := pendingTasks_accept st' key memoryObj size
      change Called st (st'.accept key memoryObj size) _
      refine ⟨hmade.follows.append (follows_updateOnPut _ _), hkind.trans hmade.kind, ⟨?_, ?_⟩,
        fun hlfu => ?_⟩
      · rw [accept, map_append]
        refine hmade.settled.registered.nodup.append (nodup_singleton key) fun key' hold hnew => ?_
        obtain ⟨task, htask, rfl⟩ := mem_map.mp hold
        rw [hevicted.tasks] at htask
        have hput := h.registered.registered task htask
        rw [mem_singleton.mp hnew] at hput
        exact hregistered hput
      · intro task htask
        rcases mem_append.mp htask with hold | hnew
        · exact hmade.settled.registered.registered task hold
        · obtain rfl := mem_singleton.mp hnew
          change key ∈ st'.putTasks
          rw [hevicted.putTasks]
          exact mem_append_right _ mem_cons_self
      · have hlfu' := hkind.symm.trans hlfu
        refine (hmade.settled.keeps hlfu').updateOnPut hlfu' (hfresh st' hresult hlfu')
          (fun _ hkey' => .inr hkey') (fun _ hkey' => hkey')
          (.inr ⟨⟨key, memoryObj, size, .queued⟩, ?_, rfl⟩) fun key' hkey' => ?_
        · rw [hpending]
          exact mem_append_right _ mem_cons_self
        · obtain ⟨task, htask, hkey⟩ := hkey'
          refine ⟨task, ?_, hkey⟩
          rw [hpending]
          exact mem_append_left _ htask
  · have hmade := called_room h (hclear hlocked hregistered).1
    rw [append_nil]
    cases hresult : makeRoom cfg.maxCacheSize size st.dict.items.length (st.insertPutTask key) with
    | mk result st' =>
      rw [hresult] at hroom hmade
      cases result with
      | room => exact absurd rfl hroom
      | full | raised => exact ⟨hmade.follows, hmade.kind, hmade.settled⟩

theorem inFlight_setPhase {phase : PutPhase} (hkey : st.InFlight key')
    (hphase : key' = key → phase ≠ .entered) : (st.setPhase key phase).InFlight key' := by
  obtain ⟨task, htask, rfl⟩ := hkey
  obtain ⟨hmem, hpending⟩ := mem_filter.mp htask
  refine ⟨if task.key = key then { task with phase := phase } else task,
    mem_filter.mpr ⟨mem_map_of_mem hmem, ?_⟩, ?_⟩
  · split_ifs with heq
    · exact decide_eq_true (hphase heq)
    · exact hpending
  · split_ifs <;> rfl

theorem called_writeFile (h : st.Settled) (cfg : LocalDiskConfig K Λ) (key : K) :
    Called st (st.writeFile cfg key) [] := by
  rw [writeFile]
  cases st.taskOf key .queued with
  | none => exact called_same h rfl (fun _ => rfl) rfl rfl
  | some task =>
    refine ⟨.nil _, rfl, h.mono ?_ rfl (fun _ hkey => hkey) fun _ key' =>
      Or.imp_right fun hflight => ?_⟩
    · exact (h.registered.setPhase key .written).congr rfl rfl
    · exact inFlight_setPhase ((inFlight_congr rfl).mpr hflight) fun _ => by simp

theorem stays_setPhase (st : DiskState K Λ X E) {dict : Dict K (DiskCacheMetadata Λ X)}
    (hdict : ∀ key', st.dict.contains key' = true → dict.contains key' = true)
    (hkey : dict.contains key = true) (key' : K)
    (hstored : st.dict.contains key' = true ∨ st.InFlight key') :
    dict.contains key' = true ∨ (st.setPhase key .entered).InFlight key' := by
  rcases hstored with hstored | hflight
  · exact .inl (hdict key' hstored)
  · rcases eq_or_ne key' key with rfl | hne
    · exact .inl hkey
    · exact .inr (inFlight_setPhase hflight fun heq => absurd heq hne)

theorem called_insertKey (h : st.Settled) (hlocked : st.locked = false)
    (hclear : PolicyClear cfg st (.insertKey key)) :
    Called st (st.insertKey cfg key)
      (match st.taskOf key .written with
        | none => []
        | some _ => st.hitCalls key) := by
  rw [insertKey]
  cases htask : st.taskOf key .written with
  | none => exact called_same h rfl (fun _ => rfl) rfl rfl
  | some task =>
    have hregistered := h.registered.setPhase key .entered
    dsimp only
    rw [hitCalls]
    split_ifs with hstored
    · obtain ⟨policy, dict, hhit⟩ := exists_updateOnHit (h.knows hstored) h.exact
      have hcalled := called_hit h hhit
      have hsame := (hit_of_updateOnHit hhit).get?
      rw [hhit]
      refine ⟨hcalled.follows, hcalled.kind, hcalled.settled.mono (hregistered.congr rfl rfl) rfl
        (fun _ hkey => hkey) fun _ key' hkey' => ?_⟩
      refine stays_setPhase { st with policy := policy, dict := dict } (fun _ hkey => hkey)
        ?_ key' hkey'
      rw [Dict.contains, hsame]
      exact hstored
    · rw [Bool.not_eq_true] at hstored
      have hset : ∀ (v : DiskCacheMetadata Λ X) key', (st.dict.set key v).contains key' = true ↔
          key' = key ∨ st.dict.contains key' = true :=
        fun v key' => st.dict.contains_set_iff key key' v
      refine ⟨.nil _, rfl, hregistered.congr rfl rfl, fun hlfu => ?_⟩
      have hkeeps := h.keeps hlfu
      refine ⟨hkeeps.exact, fun key' hkey' => ?_, fun key' hkey' => ?_⟩
      · rcases (hset _ key').mp hkey' with rfl | hold
        · exact hclear hlfu hlocked task htask hstored
        · exact hkeeps.tracked key' hold
      · exact stays_setPhase st (fun key' hold => (hset _ key').mpr (.inr hold))
          ((hset _ key).mpr (.inl rfl)) key' (hkeeps.known key' hkey')

theorem called_removePutTask (h : st.Settled) (key : K) : Called st (st.removePutTask key) [] := by
  rw [removePutTask]
  cases htask : st.taskOf key .entered with
  | none => exact called_same h rfl (fun _ => rfl) rfl rfl
  | some task =>
    obtain ⟨hmem, rfl, hentered⟩ := taskOf_some htask
    refine ⟨.nil _, rfl, h.mono ⟨(h.registered.dropTask task.key).nodup, fun t ht => ?_⟩ rfl
      (fun _ hkey => hkey) fun _ key' => Or.imp_right ?_⟩
    · obtain ⟨hold, hkey⟩ := mem_filter.mp ht
      exact (mem_erase_of_ne (by simpa using hkey)).mpr (h.registered.registered t hold)
    · rintro ⟨t, ht, rfl⟩
      obtain ⟨hold, hpending⟩ := mem_filter.mp ht
      refine ⟨t, mem_filter.mpr ⟨mem_filter.mpr ⟨hold, decide_eq_true ?_⟩, hpending⟩, rfl⟩
      intro heq
      obtain rfl := h.registered.unique hold hmem heq
      exact absurd hentered (by simpa using hpending)

end Puts

section Entries

theorem settled_erase (h : st.Settled) (key : K)
    (hflight : st.policy.kind = .lfu → st.dict.contains key = true → st.InFlight key) :
    ({ st with dict := st.dict.erase key }).Settled := by
  refine h.mono (h.registered.congr rfl rfl) rfl
    (fun key' hkey' => ((Dict.contains_erase_iff _ _ _).mp hkey').1) fun hlfu key' hkey' => ?_
  rcases hkey' with hstored | hpending
  · rcases eq_or_ne key' key with rfl | hne
    · exact .inr (hflight hlfu hstored)
    · exact .inl ((Dict.contains_erase_iff _ _ _).mpr ⟨hstored, hne⟩)
  · exact .inr hpending

theorem called_remove (h : st.Settled) (hlocked : st.locked = false)
    (hclear : PolicyClear cfg st (.remove key)) :
    Called st (st.remove key) (st.removeCalls key) := by
  rw [remove, removeCalls]
  cases hget : st.dict.get? key with
  | none => exact called_same h rfl (fun _ => rfl) rfl rfl
  | some m =>
    dsimp only [evict]
    cases hfile : st.files m.path with
    | none =>
      have hsettled := settled_erase h key fun hlfu _ => hclear hlfu hlocked m hget hfile
      exact ⟨.nil _, rfl, hsettled.registered.congr rfl rfl, hsettled.keeps⟩
    | some content =>
      obtain ⟨policy, hevict⟩ := exists_updateOnForceEvict h.exact key
      have hkind := (forgets_updateOnForceEvict hevict).kind
      rw [Option.isSome_some, if_pos rfl]
      dsimp only [setFile]
      rw [hevict]
      exact ⟨follows_updateOnForceEvict hevict, hkind, h.registered.congr rfl rfl,
        fun hlfu => (h.keeps (hkind ▸ hlfu)).updateOnForceEvict (hkind ▸ hlfu) hevict⟩

theorem contains_setPins (st : DiskState K Λ X E) (key key' : K) :
    (st.setPins key f).dict.contains key' = st.dict.contains key' := by
  rw [setPins]
  cases hget : st.dict.get? key with
  | none => rfl
  | some m =>
    rw [Dict.contains, Dict.contains, Dict.get?_set]
    split_ifs with heq
    · rw [← heq, hget]
      rfl
    · rfl

theorem called_setPins (h : st.Settled) (key : K) : Called st (st.setPins key f) [] := by
  refine called_same h ?_ (contains_setPins st key) ?_ ?_
  all_goals
    rw [setPins]
    split <;> rfl

end Entries

section Reads

theorem called_finish (h : st.Settled) (jobId : ℕ) (job : ReadJob K Λ X E) :
    Called st (st.finish jobId job) [] := by
  rw [finish]
  split_ifs <;> exact called_same h rfl (fun _ => rfl) rfl rfl

theorem called_getBlocking (h : st.Settled) (cfg : LocalDiskConfig K Λ) (jobId : ℕ) (key : K)
    (memory : Option (ℕ → ℕ)) :
    Called st (st.getBlocking cfg jobId key memory) (st.hitCalls key) := by
  rw [getBlocking, hitCalls, Dict.contains]
  cases hget : st.dict.get? key with
  | none => exact called_same h rfl (fun _ => rfl) rfl rfl
  | some m =>
    obtain ⟨policy, dict, hhit⟩ :=
      exists_updateOnHit (h.knows (contains_of_get? hget)) h.exact
    have hcalled := called_hit h hhit
    dsimp only
    rw [hhit]
    cases memory with
    | none => exact hcalled.congr rfl rfl rfl rfl
    | some memory => exact hcalled.congr rfl rfl rfl rfl

theorem called_locateKey (h : st.Settled) (cfg : LocalDiskConfig K Λ) (jobId : ℕ)
    (job : ReadJob K Λ X E) (key : K) (keys : List K) (memory : ℕ → ℕ) :
    Called st (st.locateKey cfg jobId job key keys (some memory))
      ((st.setPins key pin).hitCalls key) := by
  have hpins := called_setPins (f := pin) h key
  rw [hitCalls, contains_setPins, Dict.contains]
  unfold locateKey
  cases hget : st.dict.get? key with
  | none => exact called_same h rfl (fun _ => rfl) rfl rfl
  | some m =>
    have hstored := (contains_setPins (f := pin) st key key).trans
      (contains_of_get? hget)
    obtain ⟨policy, dict, hhit⟩ := exists_updateOnHit (hpins.settled.knows hstored)
      hpins.settled.exact
    have hcalled := called_hit hpins.settled hhit
    dsimp only
    rw [hhit]
    exact ⟨hpins.follows.append hcalled.follows, hcalled.kind.trans hpins.kind,
      Called.settled (hcalled.congr rfl rfl rfl rfl)⟩

theorem called_locate (h : st.Settled) (cfg : LocalDiskConfig K Λ) (jobId : ℕ)
    (memory : Option (ℕ → ℕ)) :
    Called st (st.locate cfg jobId memory) (st.locateCalls jobId memory) := by
  unfold locate locateCalls
  cases st.jobs.get? jobId with
  | none => exact called_same h rfl (fun _ => rfl) rfl rfl
  | some job =>
    dsimp only
    cases job.toLocate with
    | nil => exact called_same h rfl (fun _ => rfl) rfl rfl
    | cons key keys =>
      cases memory with
      | none =>
        dsimp only
        unfold locateKey
        cases st.dict.get? key <;> exact called_same h rfl (fun _ => rfl) rfl rfl
      | some memory => exact called_locateKey h cfg jobId job key keys memory

theorem called_readFile (h : st.Settled) (hclear : PolicyClear cfg st (.readFile jobId)) :
    Called st (st.readFile jobId) [] := by
  rw [readFile]
  cases hhead : st.headTarget jobId .allocated with
  | none => exact called_same h rfl (fun _ => rfl) rfl rfl
  | some head =>
    obtain ⟨job, target, toLoad⟩ := head
    dsimp only
    cases hfile : st.files target.diskMeta.path with
    | none =>
      have hsettled := settled_erase h target.key fun hlfu =>
        hclear hlfu job target toLoad hhead hfile
      exact ⟨.nil _, rfl, hsettled.registered.congr rfl rfl, hsettled.keeps⟩
    | some content => exact called_same h rfl (fun _ => rfl) rfl rfl

theorem called_takePositions (h : st.Settled) (jobId : ℕ) :
    Called st (st.takePositions jobId) [] := by
  rw [takePositions]
  cases st.headTarget jobId .read with
  | none => exact called_same h rfl (fun _ => rfl) rfl rfl
  | some head =>
    dsimp only
    cases st.dict.get? head.2.1.key with
    | none => exact called_same h rfl (fun _ => rfl) rfl rfl
    | some entry =>
      dsimp only
      split_ifs
      · exact called_same h rfl (fun _ => rfl) rfl rfl
      · exact called_finish h jobId _

theorem called_unpinLoaded (h : st.Settled) (jobId : ℕ) : Called st (st.unpinLoaded jobId) [] := by
  rw [unpinLoaded]
  cases st.headTarget jobId .positioned with
  | none => exact called_same h rfl (fun _ => rfl) rfl rfl
  | some head =>
    dsimp only
    split_ifs
    · have hpins := called_setPins (f := unpin) h head.2.1.key
      have hfinish := called_finish hpins.settled jobId { head.1 with
        toLoad := head.2.2
        loaded := head.1.loaded ++ [(head.2.1.key, head.2.1.memoryObj)] }
      exact ⟨hpins.follows.append hfinish.follows, hfinish.kind.trans hpins.kind, hfinish.settled⟩
    · exact called_same h rfl (fun _ => rfl) rfl rfl

end Reads

theorem called_exec (h : st.Settled) (event : DiskEvent K Λ X E)
    (hclear : PolicyClear cfg st event) : Called st (cfg.exec st event) (calls cfg st event) := by
  have hwhile : ∀ (st' : DiskState K Λ X E) (made : List (PolicyCall K (DiskCacheMetadata Λ X))),
      (st.locked = false → Called st st' made) →
        Called st (if st.locked then st else st') (if st.locked then [] else made) := by
    intro st' made hcalled
    split_ifs with hlocked
    · exact called_same h rfl (fun _ => rfl) rfl rfl
    · exact hcalled (by simpa using hlocked)
  have hquiet : ∀ (st' : DiskState K Λ X E) (waits : Bool), Called st st' [] →
      Called st (if waits then st else st') [] := by
    intro st' waits hcalled
    split_ifs
    · exact called_same h rfl (fun _ => rfl) rfl rfl
    · exact hcalled
  cases event with
  | submitPutTask key memoryObj size =>
    exact hwhile _ _ fun hlocked => called_submitPutTask h memoryObj hlocked hclear
  | writeFile key => exact called_writeFile h cfg key
  | insertKey key => exact hwhile _ _ fun hlocked => called_insertKey h hlocked hclear
  | removePutTask key => exact called_removePutTask h key
  | remove key => exact hwhile _ _ fun hlocked => called_remove h hlocked hclear
  | getBlocking jobId key memory =>
    rw [LocalDiskConfig.exec, calls]
    split_ifs
    · exact called_same h rfl (fun _ => rfl) rfl rfl
    · exact called_getBlocking h cfg jobId key memory
  | batchedGetNonBlocking jobId keys => exact hquiet _ _ (called_finish h jobId _)
  | locate jobId memory => exact hwhile _ _ fun _ => called_locate h cfg jobId memory
  | readFile jobId => exact called_readFile h hclear
  | takePositions jobId => exact called_takePositions h jobId
  | unpinLoaded jobId => exact hquiet _ _ (called_unpinLoaded h jobId)
  | pin key | unpin key => exact hquiet _ _ (called_setPins h key)
  | fileLost path => exact called_same h rfl (fun _ => rfl) rfl rfl

end DiskState

end LMCache
