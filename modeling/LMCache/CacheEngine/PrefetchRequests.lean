import LMCache.CacheEngine.PrefetchRelease
import LMCache.Foundations.Execution

namespace LMCache

open Execution AsyncPrefetch List

variable {H E K O : Type} [DecidableEq K]

section ReleasedOnce

variable [DecidableEq O] {pinned fetched : List O} {memoryObj : O}
  {log served : List (ObjOp × ObjRef O)}

def HeldAtGpu (log : List (ObjOp × ObjRef O)) (entry : ObjOp × ObjRef O) : Prop :=
  entry.1 = .toGpu →
    log.count (.refDown, entry.2) < log.count (.refUp, entry.2) + log.count (.allocated, entry.2)

structure ReleasedOnce (log : List (ObjOp × ObjRef O)) : Prop where
  refs : ∀ memoryObj, log.count (.refDown, .hot memoryObj) = log.count (.refUp, .hot memoryObj)
  pins : ∀ memoryObj, log.count (.unpin, .hot memoryObj) = log.count (.pin, .hot memoryObj)
  decoded : ∀ chunkIdx,
    log.count (.refDown, .decoded chunkIdx) = log.count (.allocated, .decoded chunkIdx)
  held : Along (fun log entry => log ++ [entry]) HeldAtGpu [] log

theorem count_logOf (op op' : ObjOp) (memoryObjs : List O) :
    (logOf op memoryObjs).count (op', .hot memoryObj) =
      if op = op' then memoryObjs.count memoryObj else 0 := by
  rw [logOf]
  induction memoryObjs with
  | nil => simp
  | cons head memoryObjs ih =>
    rw [map_cons, count_cons, ih, count_cons]
    split_ifs <;> simp_all

theorem count_releases (op : ObjOp) (memoryObjs : List O) :
    (memoryObjs.flatMap releaseMemoryObj).count (op, .hot memoryObj) =
      if op = .unpin ∨ op = .refDown then memoryObjs.count memoryObj else 0 := by
  induction memoryObjs with
  | nil => simp
  | cons head memoryObjs ih =>
    rw [flatMap_cons, count_append, ih, count_cons]
    cases op <;> simp [releaseMemoryObj, count_cons, Nat.add_comm]

omit [DecidableEq O] in
theorem not_mem_releases (op : ObjOp) (chunkIdx : ℕ) (memoryObjs : List O) :
    (op, .decoded chunkIdx) ∉ memoryObjs.flatMap releaseMemoryObj := by
  simp [releaseMemoryObj]

omit [DecidableEq O] in
theorem not_mem_logOf (op op' : ObjOp) (chunkIdx : ℕ) (memoryObjs : List O) :
    (op, .decoded chunkIdx) ∉ logOf op' memoryObjs := by
  simp [logOf]

def requestLog (pinned fetched : List O) (served : List (ObjOp × ObjRef O)) :
    List (ObjOp × ObjRef O) :=
  logOf .pin pinned ++ logOf .refUp fetched ++ served ++ fetched.flatMap releaseMemoryObj

def ServeOps (served : List (ObjOp × ObjRef O)) : Prop :=
  ∀ entry ∈ served, entry.1 = .allocated ∨ entry.1 = .refDown ∨ entry.1 = .toGpu

theorem ServeOps.count_eq_zero (h : ServeOps served) {op : ObjOp} (ref : ObjRef O)
    (hop : op = .pin ∨ op = .unpin ∨ op = .refUp) : served.count (op, ref) = 0 := by
  rw [List.count_eq_zero]
  intro hmem
  have hallowed := h _ hmem
  rcases hop with rfl | rfl | rfl <;> simp at hallowed

theorem perm_of_releasedOnce (hops : ServeOps served)
    (h : ReleasedOnce (requestLog pinned fetched served)) : fetched.Perm pinned := by
  rw [List.perm_iff_count]
  intro memoryObj
  have hpins := h.pins memoryObj
  simp only [requestLog, count_append, count_logOf, count_releases,
    hops.count_eq_zero (.hot memoryObj) (.inl rfl),
    hops.count_eq_zero (.hot memoryObj) (.inr (.inl rfl))] at hpins
  simpa using hpins

theorem not_dropped_of_releasedOnce (hops : ServeOps served)
    (h : ReleasedOnce (requestLog pinned fetched served)) (memoryObj : O) :
    (ObjOp.refDown, ObjRef.hot memoryObj) ∉ served := by
  have hrefs := h.refs memoryObj
  simp only [requestLog, count_append, count_logOf, count_releases,
    hops.count_eq_zero (.hot memoryObj) (.inr (.inr rfl))] at hrefs
  rw [← count_eq_zero]
  simpa using hrefs

theorem along_heldAtGpu (memoryObjs : List O) (hsub : ∀ o ∈ memoryObjs, o ∈ fetched) :
    Along (fun log entry => log ++ [entry]) HeldAtGpu []
      (requestLog pinned fetched (logOf .toGpu memoryObjs)) := by
  have hquiet : ∀ log rest : List (ObjOp × ObjRef O), (∀ entry ∈ rest, entry.1 ≠ .toGpu) →
      Along (fun log entry => log ++ [entry]) HeldAtGpu log rest := by
    intro log rest hrest
    refine along_of_invariant (I := fun _ => True) (fun _ _ _ _ => trivial) ?_ trivial
      (along_of_mem hrest log)
    exact fun _ entry _ hne htoGpu => absurd htoGpu hne
  rw [requestLog, along_append, along_append, along_append]
  refine ⟨⟨⟨?_, ?_⟩, ?_⟩, ?_⟩
  · exact hquiet _ _ (by simp [logOf])
  · exact hquiet _ _ (by simp [logOf])
  · rw [final_snoc, nil_append]
    refine along_of_invariant (I := fun log => ∀ o ∈ fetched,
      log.count (.refDown, .hot o) = 0 ∧ 0 < log.count (.refUp, .hot o)) ?_ ?_ ?_
      (along_of_mem (P := fun entry => ∃ o ∈ fetched, entry = (.toGpu, .hot o)) ?_ _)
    · rintro log _ hheld ⟨o', _, rfl⟩ o ho
      simpa [count_append] using hheld o ho
    · rintro log _ hheld ⟨o, ho, rfl⟩ _
      have hone := hheld o ho
      dsimp only
      omega
    · intro o ho
      simp only [count_append, count_logOf]
      simpa using ho
    · intro entry hentry
      obtain ⟨o, ho, rfl⟩ := mem_map.mp hentry
      exact ⟨o, hsub o ho, rfl⟩
  · refine hquiet _ _ fun entry hentry => ?_
    obtain ⟨o, _, hmem⟩ := mem_flatMap.mp hentry
    simp only [releaseMemoryObj, mem_cons, not_mem_nil, or_false] at hmem
    rcases hmem with rfl | rfl <;> exact ObjOp.noConfusion

theorem releasedOnce_of_kept (hperm : fetched.Perm pinned) (memoryObjs : List O)
    (hsub : ∀ o ∈ memoryObjs, o ∈ fetched) :
    ReleasedOnce (requestLog pinned fetched (logOf .toGpu memoryObjs)) := by
  refine ⟨fun o => ?_, fun o => ?_, fun chunkIdx => ?_, along_heldAtGpu memoryObjs hsub⟩
  · simp [requestLog, count_append, count_logOf, count_releases]
  · simpa [requestLog, count_append, count_logOf, count_releases] using hperm.count_eq o
  · simp only [requestLog, count_append, count_eq_zero.mpr (not_mem_logOf _ _ chunkIdx _),
      count_eq_zero.mpr (not_mem_releases _ chunkIdx _)]

end ReleasedOnce

namespace AsyncEngine

variable {engine : AsyncEngine H E O} {call : RetrieveCall H K} {memoryObjMap : Dict K O}
  {segments : List (ℕ × ℕ × K)} {chunkIdx : ℕ}

theorem serveOps_readChunks (engine : AsyncEngine H E O) (call : RetrieveCall H K)
    (memoryObjMap : Dict K O) (segments : List (ℕ × ℕ × K)) (chunkIdx : ℕ) :
    ServeOps (engine.readChunks call memoryObjMap segments chunkIdx).2 := by
  induction segments generalizing chunkIdx with
  | nil => exact fun _ hmem => absurd hmem not_mem_nil
  | cons segment segments ih =>
    obtain ⟨start, stop, key⟩ := segment
    rw [readChunks]
    cases memoryObjMap.get? key with
    | none => exact fun _ hmem => absurd hmem not_mem_nil
    | some memoryObj =>
      obtain ⟨hplain, hdecoded⟩ :=
        decodeMemoryObj_eq engine call (call.granted chunkIdx) chunkIdx memoryObj
      dsimp only
      cases hdecodes : engine.decodes call memoryObj with
      | false =>
        rw [hplain hdecodes]
        exact ih (chunkIdx + 1)
      | true =>
        rw [hdecoded hdecodes]
        split_ifs
        · intro entry hentry
          rcases mem_append.mp hentry with hhead | hrest
          · simp only [mem_cons, not_mem_nil, or_false] at hhead
            rcases hhead with rfl | rfl
            · exact .inl rfl
            · exact .inr (.inl rfl)
          · exact ih (chunkIdx + 1) entry hrest
        · exact fun _ hmem => absurd hmem not_mem_nil

theorem serveOps_serveChunks (engine : AsyncEngine H E O) (call : RetrieveCall H K)
    (memoryObjMap : Dict K O) (segments : List (ℕ × ℕ × K)) :
    ServeOps (retrieveLog (engine.serveChunks call memoryObjMap segments)) := by
  have hread := serveOps_readChunks engine call memoryObjMap segments 0
  rw [serveChunks]
  cases hresult : engine.readChunks call memoryObjMap segments 0 with
  | mk res log =>
    rw [hresult] at hread
    cases res with
    | error e =>
      intro entry hentry
      exact hread entry (by simpa [retrieveLog, Except.toOption] using hentry)
    | ok chunks =>
      intro entry hentry
      rcases mem_append.mp hentry with hlog | hgpu
      · rcases mem_append.mp hlog with hchunks | hunused
        · exact hread entry hchunks
        · obtain ⟨memoryObj, _, rfl⟩ := mem_map.mp hunused
          exact .inr (.inl rfl)
      · obtain ⟨c, _, rfl⟩ := mem_map.mp hgpu
        exact .inr (.inr rfl)

end AsyncEngine

end LMCache

namespace LMCache

variable {H E K O : Type} [DecidableEq K]

namespace AsyncEngine

variable {engine : AsyncEngine H E O} {call : RetrieveCall H K} {memoryObjMap : Dict K O}
  {segments : List (ℕ × ℕ × K)}

theorem get?_foldl_set {items : List (K × O)} {d : Dict K O} {key : K} {memoryObj : O}
    (h : (items.foldl (fun d p => d.set p.1 p.2) d).get? key = some memoryObj) :
    (key, memoryObj) ∈ items ∨ d.get? key = some memoryObj := by
  induction items generalizing d with
  | nil => exact .inr h
  | cons p items ih =>
    rcases ih h with hmem | hset
    · exact .inl (List.mem_cons_of_mem _ hmem)
    · rw [Dict.get?_set] at hset
      split_ifs at hset with heq
      · subst heq
        obtain rfl := Option.some.inj hset
        exact .inl List.mem_cons_self
      · exact .inr hset

variable {keys : List K}

theorem mem_of_memoryObjMap {fetched : List O} {memoryObj : O}
    (h : memoryObj ∈ (memoryObjMapOf [keys.zip fetched]).values) : memoryObj ∈ fetched := by
  obtain ⟨key, hget⟩ := (Dict.mem_values_iff _ _).mp h
  rw [memoryObjMapOf, List.flatten_singleton] at hget
  rcases get?_foldl_set hget with hmem | hnone
  · exact (List.of_mem_zip hmem).2
  · exact absurd hnone (by simp)

theorem retrieve_state (engine : AsyncEngine H E O) (reqId : String) (call : RetrieveCall H K)
    (st : AsyncPrefetch K O) :
    (engine.retrieve reqId call st).2 =
      { st with log := st.log ++ retrieveLog (engine.asyncProcessTokensInternal call reqId st) } := by
  rw [retrieve]
  cases engine.asyncProcessTokensInternal call reqId st with
  | mk res log =>
    cases res with
    | error e => simp [retrieveLog, Except.toOption]
    | ok chunks => simp [retrieveLog, Except.toOption, List.append_assoc]

def request (engine : AsyncEngine H E O) (hotCache hotCacheAtGet : Dict K O) (lookupId : String)
    (keys : List K) (call : Option (RetrieveCall H K))
    (eventManager : EventManager (Except PrefetchError (List (List (K × O))))) :
    AsyncPrefetch K O :=
  let st : AsyncPrefetch K O := AsyncPrefetch.asyncLookupAndPrefetch hotCache hotCacheAtGet lookupId
    keys true ⟨eventManager, []⟩
  (call.elim st fun call => (engine.retrieve lookupId call st).2).lookupUnpin lookupId

def pinnedObjs (hotCache : Dict K O) (keys : List K) : List O := leadingObjs hotCache keys

variable (hotCache hotCacheAtGet : Dict K O)

def fetchedObjs (keys : List K) : List O :=
  leadingObjs hotCacheAtGet (keys.take (pinnedObjs hotCache keys).length)

def prefetchedMap (keys : List K) : Dict K O :=
  memoryObjMapOf [(keys.take (pinnedObjs hotCache keys).length).zip
    (fetchedObjs hotCache hotCacheAtGet keys)]

def callLog (engine : AsyncEngine H E O) (memoryObjMap : Dict K O)
    (call : Option (RetrieveCall H K)) : List (ObjOp × ObjRef O) :=
  call.elim [] fun call =>
    match engine.tokenDatabase.processTokens call.makeKeyByHash (some call.tokens) none none
      call.mask with
    | .error _ => []
    | .ok segments => retrieveLog (engine.serveChunks call memoryObjMap segments)

variable {eventManager : EventManager (Except PrefetchError (List (List (K × O))))}
  {lookupId : String}

theorem request_unhit {hotCache hotCacheAtGet : Dict K O} {call : Option (RetrieveCall H K)}
    (hfresh : eventManager.getEventStatus lookupId = .notFound)
    (hnone : pinnedObjs hotCache keys = []) :
    engine.request hotCache hotCacheAtGet lookupId keys call eventManager = ⟨eventManager, []⟩ := by
  rw [pinnedObjs] at hnone
  have hlookup : AsyncPrefetch.asyncLookupAndPrefetch hotCache hotCacheAtGet lookupId keys true
      (⟨eventManager, []⟩ : AsyncPrefetch K O) = ⟨eventManager, []⟩ := by
    rw [AsyncPrefetch.asyncLookupAndPrefetch, batchedAsyncContains_eq, hnone]
    rfl
  have hunpin : (⟨eventManager, []⟩ : AsyncPrefetch K O).lookupUnpin lookupId =
      ⟨eventManager, []⟩ := by
    rw [AsyncPrefetch.lookupUnpin, if_pos hfresh]
  rw [request, hlookup]
  cases call with
  | none => exact hunpin
  | some call =>
    rw [Option.elim_some, retrieve_state, asyncProcessTokensInternal,
      EventManager.getEventFuture_of_notFound hfresh]
    exact hunpin

structure Loaded (eventManager : EventManager (Except PrefetchError (List (List (K × O)))))
    (lookupId : String) (future : Except PrefetchError (List (List (K × O)))) : Prop where
  status : eventManager.getEventStatus lookupId = .done
  get : eventManager.getEventFuture lookupId = .ok future
  pop : ∃ popped, eventManager.popEvent lookupId = .ok (popped, future)

def prefetchFuture (keys : List K) : Except PrefetchError (List (List (K × O))) :=
  if (fetchedObjs hotCache hotCacheAtGet keys).length = (pinnedObjs hotCache keys).length then
    .ok [(keys.take (pinnedObjs hotCache keys).length).zip
      (fetchedObjs hotCache hotCacheAtGet keys)]
  else .error .missingKey

theorem asyncLookup_loaded {hotCache : Dict K O} (hotCacheAtGet : Dict K O) (lookupId : String)
    (eventManager : EventManager (Except PrefetchError (List (List (K × O)))))
    (hsome : pinnedObjs hotCache keys ≠ []) :
    ∃ loaded, AsyncPrefetch.asyncLookupAndPrefetch hotCache hotCacheAtGet lookupId keys true
        ⟨eventManager, []⟩ = ⟨loaded, logOf .pin (pinnedObjs hotCache keys) ++
          logOf .refUp (fetchedObjs hotCache hotCacheAtGet keys)⟩ ∧
      Loaded loaded lookupId (prefetchFuture hotCache hotCacheAtGet keys) := by
  have htake : (keys.take (pinnedObjs hotCache keys).length).length =
      (pinnedObjs hotCache keys).length :=
    List.length_take_of_le (leadingObjs_length_le hotCache keys)
  have hhits : ¬ (leadingObjs hotCache keys).length = 0 := fun hzero =>
    hsome (List.length_eq_zero_iff.mp hzero)
  obtain ⟨loaded, hupdate, hstatus, hget, hpop⟩ := EventManager.done_updateEventStatus eventManager
    lookupId (prefetchFuture hotCache hotCacheAtGet keys)
  refine ⟨loaded, ?_, hstatus, hget, hpop⟩
  rw [AsyncPrefetch.asyncLookupAndPrefetch, batchedAsyncContains_eq]
  dsimp only
  rw [if_neg hhits, batchedGetNonBlocking_eq]
  change AsyncPrefetch.finishLoading ⟨eventManager.addEvent lookupId
    (Except.map _ (if (fetchedObjs hotCache hotCacheAtGet keys).length =
      (keys.take (pinnedObjs hotCache keys).length).length then
        .ok (fetchedObjs hotCache hotCacheAtGet keys) else _)), _⟩ lookupId = _
  have hfuture : Except.map (fun memObjs =>
        [(keys.take (leadingObjs hotCache keys).length).zip memObjs])
      (if (fetchedObjs hotCache hotCacheAtGet keys).length =
          (keys.take (pinnedObjs hotCache keys).length).length
        then .ok (fetchedObjs hotCache hotCacheAtGet keys) else .error .missingKey) =
      prefetchFuture hotCache hotCacheAtGet keys := by
    rw [htake, prefetchFuture]
    split_ifs <;> rfl
  rw [AsyncPrefetch.finishLoading]
  dsimp only
  rw [List.nil_append, hfuture, hupdate]
  rfl

variable {st : AsyncPrefetch K O}

omit [DecidableEq K] in
theorem lookupUnpin_loaded {future : Except PrefetchError (List (List (K × O)))}
    (h : Loaded st.eventManager lookupId future) :
    (st.lookupUnpin lookupId).log = st.log ++
      ((future.toOption.map fun memoryObjs =>
        memoryObjs.flatten.flatMap fun p => AsyncPrefetch.releaseMemoryObj p.2).getD []) := by
  obtain ⟨popped, hpop⟩ := h.pop
  have hfound : st.eventManager.getEventStatus lookupId ≠ .notFound := by
    rw [h.status]
    exact EventStatus.noConfusion
  rw [AsyncPrefetch.lookupUnpin, if_neg hfound, AsyncPrefetch.cleanupMemoryObjs,
    if_neg (not_not.mpr h.status), hpop]
  cases future with
  | error e => exact (List.append_nil _).symm
  | ok memoryObjs => rfl

theorem serve_loaded {hotCache hotCacheAtGet : Dict K O}
    (h : Loaded st.eventManager lookupId (prefetchFuture hotCache hotCacheAtGet keys)) :
    retrieveLog (engine.asyncProcessTokensInternal call lookupId st) =
      if (fetchedObjs hotCache hotCacheAtGet keys).length = (pinnedObjs hotCache keys).length then
        engine.callLog (prefetchedMap hotCache hotCacheAtGet keys) (some call)
      else [] := by
  rw [asyncProcessTokensInternal, h.get, prefetchFuture, callLog, Option.elim_some]
  split_ifs
  · dsimp only
    cases engine.tokenDatabase.processTokens call.makeKeyByHash (some call.tokens) none none
      call.mask with
    | error message => rfl
    | ok segments => rfl
  · rfl

theorem request_log {hotCache hotCacheAtGet : Dict K O} {call : Option (RetrieveCall H K)}
    (hsome : pinnedObjs hotCache keys ≠ []) :
    (engine.request hotCache hotCacheAtGet lookupId keys call eventManager).log =
      if (fetchedObjs hotCache hotCacheAtGet keys).length = (pinnedObjs hotCache keys).length then
        requestLog (pinnedObjs hotCache keys) (fetchedObjs hotCache hotCacheAtGet keys)
          (engine.callLog (prefetchedMap hotCache hotCacheAtGet keys) call)
      else
        logOf .pin (pinnedObjs hotCache keys) ++
          logOf .refUp (fetchedObjs hotCache hotCacheAtGet keys) := by
  obtain ⟨loaded, hlookup, hloaded⟩ :=
    asyncLookup_loaded hotCacheAtGet lookupId eventManager hsome
  have hserved : (call.elim ⟨loaded, logOf .pin (pinnedObjs hotCache keys) ++
        logOf .refUp (fetchedObjs hotCache hotCacheAtGet keys)⟩
        fun call => (engine.retrieve lookupId call ⟨loaded, logOf .pin (pinnedObjs hotCache keys) ++
          logOf .refUp (fetchedObjs hotCache hotCacheAtGet keys)⟩).2) =
      (⟨loaded, logOf .pin (pinnedObjs hotCache keys) ++
        logOf .refUp (fetchedObjs hotCache hotCacheAtGet keys) ++
          if (fetchedObjs hotCache hotCacheAtGet keys).length = (pinnedObjs hotCache keys).length
          then engine.callLog (prefetchedMap hotCache hotCacheAtGet keys) call else []⟩ :
        AsyncPrefetch K O) := by
    cases call with
    | none =>
      rw [Option.elim_none, callLog, Option.elim_none, ite_self, List.append_nil]
    | some call => rw [Option.elim_some, retrieve_state, serve_loaded hloaded]
  rw [request, hlookup]
  change (AsyncPrefetch.lookupUnpin lookupId (call.elim _ _)).log = _
  rw [hserved, lookupUnpin_loaded hloaded, prefetchFuture]
  have htake := List.length_take_of_le (leadingObjs_length_le hotCache keys)
  split_ifs with hlength
  · have hobjs : ((keys.take (pinnedObjs hotCache keys).length).zip
        (fetchedObjs hotCache hotCacheAtGet keys)).map Prod.snd =
          fetchedObjs hotCache hotCacheAtGet keys :=
      List.map_snd_zip (by rw [hlength]; exact Nat.le_of_eq htake.symm)
    rw [requestLog, Except.toOption, Option.map_some, Option.getD_some, List.flatten_singleton]
    refine congrArg _ ?_
    rw [← List.flatMap_map, hobjs]
  · simp [Except.toOption]

def KeepsRequest (engine : AsyncEngine H E O) (hotCache hotCacheAtGet : Dict K O) (keys : List K)
    (call : Option (RetrieveCall H K)) : Prop :=
  pinnedObjs hotCache keys = [] ∨
    (fetchedObjs hotCache hotCacheAtGet keys).Perm (pinnedObjs hotCache keys) ∧
      ∀ c ∈ call, ∀ segments, engine.tokenDatabase.processTokens c.makeKeyByHash (some c.tokens)
          none none c.mask = .ok segments →
        engine.KeepsPrefetched c (prefetchedMap hotCache hotCacheAtGet keys) segments

theorem callLog_kept {call : Option (RetrieveCall H K)}
    (h : ∀ c ∈ call, ∀ segments, engine.tokenDatabase.processTokens c.makeKeyByHash (some c.tokens)
        none none c.mask = .ok segments → engine.KeepsPrefetched c memoryObjMap segments) :
    ∃ objs : List O, (∀ o ∈ objs, o ∈ memoryObjMap.values) ∧
      engine.callLog memoryObjMap call = logOf .toGpu objs := by
  cases call with
  | none => exact ⟨[], fun _ hmem => absurd hmem List.not_mem_nil, rfl⟩
  | some c =>
    rw [callLog, Option.elim_some]
    cases hsegments : engine.tokenDatabase.processTokens c.makeKeyByHash (some c.tokens) none none
      c.mask with
    | error message => exact ⟨[], fun _ hmem => absurd hmem List.not_mem_nil, rfl⟩
    | ok segments => exact serveChunks_kept (h c rfl segments hsegments)

theorem serveOps_callLog (engine : AsyncEngine H E O) (memoryObjMap : Dict K O)
    (call : Option (RetrieveCall H K)) : ServeOps (engine.callLog memoryObjMap call) := by
  cases call with
  | none => exact fun _ hmem => absurd hmem List.not_mem_nil
  | some c =>
    rw [callLog, Option.elim_some]
    cases engine.tokenDatabase.processTokens c.makeKeyByHash (some c.tokens) none none c.mask with
    | error message => exact fun _ hmem => absurd hmem List.not_mem_nil
    | ok segments => exact serveOps_serveChunks engine c memoryObjMap segments

theorem keptBy_callLog {call : Option (RetrieveCall H K)}
    (h : ∀ o : O, (ObjOp.refDown, ObjRef.hot o) ∉ engine.callLog memoryObjMap call)
    (c : RetrieveCall H K) (hc : c ∈ call) (segments : List (ℕ × ℕ × K))
    (hsegments : engine.tokenDatabase.processTokens c.makeKeyByHash (some c.tokens) none none
      c.mask = .ok segments) : engine.KeepsPrefetched c memoryObjMap segments := by
  by_contra hdrops
  obtain ⟨o, hmem⟩ := serveChunks_dropped hdrops
  refine h o ?_
  rw [Option.mem_def.mp hc, callLog, Option.elim_some, hsegments]
  exact hmem

theorem releasedOnce_iff [DecidableEq O] (engine : AsyncEngine H E O)
    (hotCache hotCacheAtGet : Dict K O) (lookupId : String) (keys : List K)
    (call : Option (RetrieveCall H K))
    (eventManager : EventManager (Except PrefetchError (List (List (K × O)))))
    (hfresh : eventManager.getEventStatus lookupId = .notFound) :
    ReleasedOnce (engine.request hotCache hotCacheAtGet lookupId keys call eventManager).log ↔
      engine.KeepsRequest hotCache hotCacheAtGet keys call := by
  by_cases hhits : pinnedObjs hotCache keys = []
  · rw [request_unhit hfresh hhits]
    refine ⟨fun _ => .inl hhits, fun _ => ⟨fun _ => rfl, fun _ => rfl, fun _ => rfl, trivial⟩⟩
  rw [request_log hhits, KeepsRequest, or_iff_right hhits]
  split_ifs with hlength
  · constructor
    · intro h
      have hops := serveOps_callLog engine (prefetchedMap hotCache hotCacheAtGet keys) call
      exact ⟨perm_of_releasedOnce hops h, keptBy_callLog (not_dropped_of_releasedOnce hops h)⟩
    · rintro ⟨hperm, hkept⟩
      obtain ⟨objs, hvalues, hlog⟩ := callLog_kept hkept
      rw [hlog]
      exact releasedOnce_of_kept hperm objs fun o ho => mem_of_memoryObjMap (hvalues o ho)
  · refine ⟨fun h => ?_, fun h => absurd h.1.length_eq hlength⟩
    obtain ⟨memoryObj, rest, hcons⟩ := List.exists_cons_of_ne_nil hhits
    have hpins := h.pins memoryObj
    simp [List.count_append, count_logOf, hcons] at hpins

def twoChunks : AsyncEngine (List (List ℕ × List ℕ)) ℕ ℕ where
  tokenDatabase := ChunkedTokenDatabase.spelled 2 true Nat.two_pos
  getSize _ := 1
  isEncodedMemoryObj _ := false

def twoChunksCache : Dict ℕ ℕ := (Dict.empty.set 1 10).set 2 20

def readTokens (tokens : List ℕ) : RetrieveCall (List (List ℕ × List ℕ)) ℕ :=
  ⟨tokens, none, List.length, false, fun _ => true⟩

theorem releasedOnce_iff_allRead :
    (EventManager.empty : EventManager (Except PrefetchError (List (List (ℕ × ℕ))))).getEventStatus
        "r" = .notFound ∧
      ReleasedOnce (twoChunks.request twoChunksCache twoChunksCache "r" [1, 2]
        (some (readTokens [1, 2, 3, 4])) EventManager.empty).log := by
  refine ⟨rfl, (releasedOnce_iff _ _ _ _ _ _ _ rfl).mpr (.inr ⟨List.Perm.refl _, ?_⟩)⟩
  intro c hc segments hsegments
  obtain rfl := Option.mem_some_iff.mp hc
  obtain rfl := Except.ok.inj hsegments
  exact .inl ⟨by decide, by decide⟩

theorem not_releasedOnce_unusedChunk :
    ¬ ReleasedOnce (twoChunks.request twoChunksCache twoChunksCache "r" [1, 2]
      (some (readTokens [1, 2])) EventManager.empty).log := by
  intro h
  have hrefs := h.refs 20
  exact absurd hrefs (by decide)

end AsyncEngine

end LMCache
