import LMCache.EventManager
import LMCache.CacheEngine.Retrieve

namespace LMCache

inductive ObjOp where
  | pin
  | unpin
  | refUp
  | refDown
  | allocated
  | toGpu
deriving DecidableEq

inductive ObjRef (O : Type) where
  | hot (memoryObj : O)
  | decoded (chunkIdx : ℕ)
deriving DecidableEq

inductive PrefetchError where
  | missingKey
deriving DecidableEq

inductive AsyncRetrieveError where
  | event (e : EventError)
  | mask (message : String)
  | decode
deriving DecidableEq

structure AsyncEngine (H E O : Type) where
  tokenDatabase : ChunkedTokenDatabase H E
  getSize : O → ℕ
  isEncodedMemoryObj : O → Bool

-- one call of retrieve; base says that its fidelity level is BASE, granted whether the allocator
-- has memory for a decoded chunk
structure RetrieveCall (H K : Type) where
  tokens : List ℕ
  mask : Option (List Bool)
  makeKeyByHash : H → K
  base : Bool
  granted : ℕ → Bool

structure AsyncPrefetch (K O : Type) where
  eventManager : EventManager (Except PrefetchError (List (List (K × O))))
  log : List (ObjOp × ObjRef O)

variable {H E K O : Type} [DecidableEq K]

def batchedAsyncContains (hotCache : Dict K O) (pin : Bool) : List K →
    ℕ × List (ObjOp × ObjRef O)
  | [] => (0, [])
  | key :: keys =>
      match hotCache.get? key with
      | none => (0, [])
      | some memoryObj =>
          let hits := batchedAsyncContains hotCache pin keys
          (hits.1 + 1, (if pin then [(.pin, .hot memoryObj)] else []) ++ hits.2)

def batchedGetNonBlocking (hotCache : Dict K O) : List K →
    Except PrefetchError (List O) × List (ObjOp × ObjRef O)
  | [] => (.ok [], [])
  | key :: keys =>
      match hotCache.get? key with
      | none => (.error .missingKey, [])
      | some memoryObj =>
          let objs := batchedGetNonBlocking hotCache keys
          (objs.1.map (memoryObj :: ·), (.refUp, .hot memoryObj) :: objs.2)

namespace AsyncPrefetch

def finishLoading (st : AsyncPrefetch K O) (lookupId : String) : AsyncPrefetch K O :=
  match st.eventManager.updateEventStatus lookupId .done with
  | .error _ => st
  | .ok eventManager => { st with eventManager := eventManager }

def asyncLookupAndPrefetch (hotCache hotCacheAtGet : Dict K O) (lookupId : String) (keys : List K)
    (pin : Bool) (st : AsyncPrefetch K O) : AsyncPrefetch K O :=
  let hits := batchedAsyncContains hotCache pin keys
  if hits.1 = 0 then { st with log := st.log ++ hits.2 }
  else
    let backendKeys := keys.take hits.1
    let objs := batchedGetNonBlocking hotCacheAtGet backendKeys
    finishLoading
      { eventManager :=
          st.eventManager.addEvent lookupId (objs.1.map fun memObjs => [backendKeys.zip memObjs])
        log := st.log ++ hits.2 ++ objs.2 } lookupId

end AsyncPrefetch

namespace AsyncEngine

variable (engine : AsyncEngine H E O)

def decodeMemoryObj (base granted : Bool) (chunkIdx : ℕ) (memoryObj : O) :
    Except AsyncRetrieveError (ObjRef O) × List (ObjOp × ObjRef O) :=
  if !base then (.ok (.hot memoryObj), [])
  else if !engine.isEncodedMemoryObj memoryObj then (.ok (.hot memoryObj), [])
  else if granted then
    (.ok (.decoded chunkIdx), [(.allocated, .decoded chunkIdx), (.refDown, .hot memoryObj)])
  else (.error .decode, [])

def readChunks (engine : AsyncEngine H E O) (call : RetrieveCall H K) (memoryObjMap : Dict K O) :
    List (ℕ × ℕ × K) → ℕ →
      Except AsyncRetrieveError (List (ProcessedChunk K (ObjRef O))) × List (ObjOp × ObjRef O)
  | [], _ => (.ok [], [])
  | (start, stop, key) :: rest, chunkIdx =>
      match memoryObjMap.get? key with
      | none => (.ok [], [])
      | some memoryObj =>
          match engine.decodeMemoryObj call.base (call.granted chunkIdx) chunkIdx memoryObj with
          | (.error e, log) => (.error e, log)
          | (.ok obj, log) =>
              let chunks := readChunks engine call memoryObjMap rest (chunkIdx + 1)
              (chunks.1.map (⟨key, obj, start, stop⟩ :: ·), log ++ chunks.2)

def memoryObjMapOf (keyedMemoryObjs : List (List (K × O))) : Dict K O :=
  keyedMemoryObjs.flatten.foldl (fun memoryObjMap p => memoryObjMap.set p.1 p.2) Dict.empty

def unusedObjs (memoryObjMap : Dict K O) (usedKeys : List K) : List O :=
  (memoryObjMap.items.filter fun p => decide (p.1 ∉ usedKeys)).map Prod.snd

def serveChunks (call : RetrieveCall H K) (memoryObjMap : Dict K O) (segments : List (ℕ × ℕ × K)) :
    Except AsyncRetrieveError (List (ProcessedChunk K (ObjRef O))) × List (ObjOp × ObjRef O) :=
  match engine.readChunks call memoryObjMap segments 0 with
  | (.error e, log) => (.error e, log)
  | (.ok chunks, log) =>
      (.ok chunks, log ++ (unusedObjs memoryObjMap (chunks.map ProcessedChunk.key)).map
        fun memoryObj => (.refDown, .hot memoryObj))

def asyncProcessTokensInternal (call : RetrieveCall H K) (reqId : String) (st : AsyncPrefetch K O) :
    Except AsyncRetrieveError (List (ProcessedChunk K (ObjRef O))) × List (ObjOp × ObjRef O) :=
  match st.eventManager.getEventFuture reqId with
  | .error e => (.error (.event e), [])
  | .ok (.error _) => (.ok [], [])
  | .ok (.ok keyedMemoryObjs) =>
      match engine.tokenDatabase.processTokens call.makeKeyByHash (some call.tokens) none none
        call.mask with
      | .error message => (.error (.mask message), [])
      | .ok segments => engine.serveChunks call (memoryObjMapOf keyedMemoryObjs) segments

def batchedToGpu (chunks : List (ProcessedChunk K (ObjRef O))) : List (ObjOp × ObjRef O) :=
  chunks.map fun c => (.toGpu, c.memoryObj)

def retrieve (reqId : String) (call : RetrieveCall H K) (st : AsyncPrefetch K O) :
    Except AsyncRetrieveError (List Bool) × AsyncPrefetch K O :=
  match engine.asyncProcessTokensInternal call reqId st with
  | (.error e, log) => (.error e, { st with log := st.log ++ log })
  | (.ok chunks, log) =>
      (.ok (chunks.foldl (fun retMask c => markSpan retMask c.start c.stop)
          (RetrieveEngine.zeros call.tokens)),
        { st with log := st.log ++ log ++ batchedToGpu chunks })

end AsyncEngine

namespace AsyncPrefetch

def releaseMemoryObj (memoryObj : O) : List (ObjOp × ObjRef O) :=
  [(.unpin, .hot memoryObj), (.refDown, .hot memoryObj)]

def cleanupMemoryObjs (lookupId : String) (st : AsyncPrefetch K O) : AsyncPrefetch K O :=
  if st.eventManager.getEventStatus lookupId ≠ .done then st
  else
    match st.eventManager.popEvent lookupId with
    | .error _ => st
    | .ok (eventManager, .error _) => { st with eventManager := eventManager }
    | .ok (eventManager, .ok memoryObjs) =>
        { eventManager := eventManager
          log := st.log ++ memoryObjs.flatten.flatMap fun p => releaseMemoryObj p.2 }

def lookupUnpin (lookupId : String) (st : AsyncPrefetch K O) : AsyncPrefetch K O :=
  if st.eventManager.getEventStatus lookupId = .notFound then st
  else st.cleanupMemoryObjs lookupId

end AsyncPrefetch

end LMCache

namespace LMCache

variable {H E K O : Type} [DecidableEq K]

def leadingObjs (hotCache : Dict K O) : List K → List O
  | [] => []
  | key :: keys =>
      match hotCache.get? key with
      | none => []
      | some memoryObj => memoryObj :: leadingObjs hotCache keys

def logOf (op : ObjOp) (memoryObjs : List O) : List (ObjOp × ObjRef O) :=
  memoryObjs.map fun memoryObj => (op, .hot memoryObj)

variable (hotCache : Dict K O) (keys : List K)

theorem leadingObjs_length_le : (leadingObjs hotCache keys).length ≤ keys.length := by
  induction keys with
  | nil => exact Nat.le_refl 0
  | cons key keys ih =>
    rw [leadingObjs]
    cases hotCache.get? key with
    | none => exact Nat.zero_le _
    | some memoryObj => exact Nat.succ_le_succ ih

theorem batchedAsyncContains_eq :
    batchedAsyncContains hotCache true keys =
      ((leadingObjs hotCache keys).length, logOf .pin (leadingObjs hotCache keys)) := by
  induction keys with
  | nil => rfl
  | cons key keys ih =>
    rw [batchedAsyncContains, leadingObjs]
    cases hotCache.get? key with
    | none => rfl
    | some memoryObj =>
      dsimp only
      rw [ih]
      rfl

theorem batchedGetNonBlocking_eq :
    batchedGetNonBlocking hotCache keys =
      (if (leadingObjs hotCache keys).length = keys.length then .ok (leadingObjs hotCache keys)
        else .error .missingKey, logOf .refUp (leadingObjs hotCache keys)) := by
  induction keys with
  | nil => rfl
  | cons key keys ih =>
    rw [batchedGetNonBlocking, leadingObjs]
    cases hotCache.get? key with
    | none => simp [logOf]
    | some memoryObj =>
      dsimp only
      simp only [ih, List.length_cons, Nat.succ_inj]
      split_ifs <;> rfl

namespace AsyncEngine

variable {engine : AsyncEngine H E O} {call : RetrieveCall H K} {memoryObjMap : Dict K O}
  {segments : List (ℕ × ℕ × K)}

def usedObjs (memoryObjMap : Dict K O) : List (ℕ × ℕ × K) → List (K × O)
  | [] => []
  | (_, _, key) :: rest =>
      match memoryObjMap.get? key with
      | none => []
      | some memoryObj => (key, memoryObj) :: usedObjs memoryObjMap rest

theorem usedObjs_get? {p : K × O} (h : p ∈ usedObjs memoryObjMap segments) :
    memoryObjMap.get? p.1 = some p.2 := by
  induction segments with
  | nil => exact absurd h List.not_mem_nil
  | cons segment segments ih =>
    obtain ⟨start, stop, key⟩ := segment
    rw [usedObjs] at h
    cases hget : memoryObjMap.get? key with
    | none =>
      rw [hget] at h
      exact absurd h List.not_mem_nil
    | some memoryObj =>
      rw [hget] at h
      rcases List.mem_cons.mp h with rfl | hrest
      · exact hget
      · exact ih hrest

def decodes (engine : AsyncEngine H E O) (call : RetrieveCall H K) (memoryObj : O) : Bool :=
  call.base && engine.isEncodedMemoryObj memoryObj

omit [DecidableEq K] in
theorem decodeMemoryObj_eq (engine : AsyncEngine H E O) (call : RetrieveCall H K) (granted : Bool)
    (chunkIdx : ℕ) (memoryObj : O) :
    (engine.decodes call memoryObj = false →
        engine.decodeMemoryObj call.base granted chunkIdx memoryObj = (.ok (.hot memoryObj), [])) ∧
      (engine.decodes call memoryObj = true →
        engine.decodeMemoryObj call.base granted chunkIdx memoryObj =
          if granted then
            (.ok (.decoded chunkIdx), [(.allocated, .decoded chunkIdx), (.refDown, .hot memoryObj)])
          else (.error .decode, [])) := by
  rw [decodes, decodeMemoryObj]
  cases call.base <;> cases engine.isEncodedMemoryObj memoryObj <;> simp

theorem readChunks_plain (chunkIdx : ℕ)
    (hplain : ∀ p ∈ usedObjs memoryObjMap segments, engine.decodes call p.2 = false) :
    ∃ chunks, engine.readChunks call memoryObjMap segments chunkIdx = (.ok chunks, []) ∧
      chunks.map ProcessedChunk.key = (usedObjs memoryObjMap segments).map Prod.fst ∧
      chunks.map ProcessedChunk.memoryObj =
        (usedObjs memoryObjMap segments).map fun p => .hot p.2 := by
  induction segments generalizing chunkIdx with
  | nil => exact ⟨[], rfl, rfl, rfl⟩
  | cons segment segments ih =>
    obtain ⟨start, stop, key⟩ := segment
    rw [usedObjs] at hplain ⊢
    rw [readChunks]
    cases hget : memoryObjMap.get? key with
    | none => exact ⟨[], rfl, rfl, rfl⟩
    | some memoryObj =>
      rw [hget] at hplain
      obtain ⟨chunks, hchunks, hkeys, hobjs⟩ :=
        ih (chunkIdx + 1) fun p hp => hplain p (List.mem_cons_of_mem _ hp)
      dsimp only
      rw [(decodeMemoryObj_eq engine call _ _ _).1 (hplain (key, memoryObj) List.mem_cons_self)]
      dsimp only
      rw [hchunks]
      refine ⟨_, rfl, ?_, ?_⟩
      · rw [List.map_cons, List.map_cons, hkeys]
      · rw [List.map_cons, List.map_cons, hobjs]

theorem readChunks_decoding (chunkIdx : ℕ) {n : ℕ}
    (hfirst : (usedObjs memoryObjMap segments).findIdx? (fun p => engine.decodes call p.2) =
      some n) :
    (call.granted (chunkIdx + n) = false →
        engine.readChunks call memoryObjMap segments chunkIdx = (.error .decode, [])) ∧
      (call.granted (chunkIdx + n) = true → ∃ memoryObj : O, (ObjOp.refDown, ObjRef.hot memoryObj) ∈
        (engine.readChunks call memoryObjMap segments chunkIdx).2) := by
  induction segments generalizing chunkIdx n with
  | nil => exact absurd hfirst (by simp [usedObjs])
  | cons segment segments ih =>
    obtain ⟨start, stop, key⟩ := segment
    rw [usedObjs] at hfirst
    rw [readChunks]
    cases hget : memoryObjMap.get? key with
    | none => exact absurd hfirst (by simp [hget])
    | some memoryObj =>
      rw [hget] at hfirst
      dsimp only at hfirst ⊢
      rw [List.findIdx?_cons] at hfirst
      cases hdecodes : engine.decodes call memoryObj with
      | false =>
        rw [hdecodes, if_neg Bool.false_ne_true] at hfirst
        obtain ⟨m, hm, rfl⟩ := Option.map_eq_some_iff.mp hfirst
        have hrest := ih (chunkIdx + 1) hm
        rw [show chunkIdx + 1 + m = chunkIdx + (m + 1) by omega] at hrest
        rw [(decodeMemoryObj_eq engine call _ _ _).1 hdecodes]
        dsimp only
        refine ⟨fun hrefused => by rw [hrest.1 hrefused]; rfl, fun hgranted => ?_⟩
        obtain ⟨dropped, hdropped⟩ := hrest.2 hgranted
        exact ⟨dropped, hdropped⟩
      | true =>
        rw [hdecodes, if_pos rfl] at hfirst
        obtain rfl := Option.some.inj hfirst
        rw [(decodeMemoryObj_eq engine call _ _ _).2 hdecodes, Nat.add_zero]
        constructor
        · intro hrefused
          rw [hrefused]
          rfl
        · intro hgranted
          rw [hgranted]
          exact ⟨memoryObj, by simp⟩

theorem mem_unusedObjs {usedKeys : List K} {memoryObj : O} :
    memoryObj ∈ unusedObjs memoryObjMap usedKeys ↔
      ∃ key, memoryObjMap.get? key = some memoryObj ∧ key ∉ usedKeys := by
  simp only [unusedObjs, List.mem_map, List.mem_filter, decide_eq_true_eq]
  constructor
  · rintro ⟨p, ⟨hp, hunused⟩, rfl⟩
    exact ⟨p.1, (Dict.get?_eq_some_iff _ _ _).mpr hp, hunused⟩
  · rintro ⟨key, hget, hunused⟩
    exact ⟨(key, memoryObj), ⟨(Dict.get?_eq_some_iff _ _ _).mp hget, hunused⟩, rfl⟩

def KeepsPrefetched (engine : AsyncEngine H E O) (call : RetrieveCall H K)
    (memoryObjMap : Dict K O) (segments : List (ℕ × ℕ × K)) : Prop :=
  (∀ p ∈ usedObjs memoryObjMap segments, engine.decodes call p.2 = false) ∧
      (∀ key ∈ memoryObjMap.keys, key ∈ (usedObjs memoryObjMap segments).map Prod.fst) ∨
    ∃ n, (usedObjs memoryObjMap segments).findIdx? (fun p => engine.decodes call p.2) = some n ∧
      call.granted n = false

def retrieveLog (served : Except AsyncRetrieveError (List (ProcessedChunk K (ObjRef O))) ×
    List (ObjOp × ObjRef O)) : List (ObjOp × ObjRef O) :=
  served.2 ++ (served.1.toOption.map batchedToGpu).getD []

theorem serveChunks_kept (h : engine.KeepsPrefetched call memoryObjMap segments) :
    ∃ objs : List O, (∀ memoryObj ∈ objs, memoryObj ∈ memoryObjMap.values) ∧
      retrieveLog (engine.serveChunks call memoryObjMap segments) = logOf .toGpu objs := by
  rw [serveChunks]
  rcases h with ⟨hplain, hused⟩ | ⟨n, hfirst, hrefused⟩
  · obtain ⟨chunks, hchunks, hkeys, hobjs⟩ := readChunks_plain 0 hplain
    have hunused : unusedObjs memoryObjMap (chunks.map ProcessedChunk.key) = [] := by
      rw [List.eq_nil_iff_forall_not_mem]
      intro memoryObj hmem
      obtain ⟨key, hget, hnot⟩ := mem_unusedObjs.mp hmem
      rw [hkeys] at hnot
      exact hnot (hused key ((Dict.mem_keys_iff _ _).mpr ⟨memoryObj, hget⟩))
    refine ⟨(usedObjs memoryObjMap segments).map Prod.snd, ?_, ?_⟩
    · intro memoryObj hmem
      obtain ⟨p, hp, rfl⟩ := List.mem_map.mp hmem
      exact (Dict.mem_values_iff _ _).mpr ⟨p.1, usedObjs_get? hp⟩
    · rw [hchunks]
      dsimp only
      rw [hunused, retrieveLog, logOf, List.map_map]
      change batchedToGpu chunks = _
      have htoGpu := congrArg (List.map fun obj => (ObjOp.toGpu, obj)) hobjs
      rw [List.map_map, List.map_map] at htoGpu
      exact htoGpu
  · rw [(readChunks_decoding 0 hfirst).1 (by rwa [Nat.zero_add])]
    exact ⟨[], fun _ hmem => absurd hmem List.not_mem_nil, rfl⟩

theorem serveChunks_dropped (h : ¬ engine.KeepsPrefetched call memoryObjMap segments) :
    ∃ memoryObj : O, (ObjOp.refDown, ObjRef.hot memoryObj) ∈
      retrieveLog (engine.serveChunks call memoryObjMap segments) := by
  rw [KeepsPrefetched, not_or] at h
  rw [serveChunks]
  cases hfirst : (usedObjs memoryObjMap segments).findIdx? fun p => engine.decodes call p.2 with
  | none =>
    have hplain : ∀ p ∈ usedObjs memoryObjMap segments, engine.decodes call p.2 = false :=
      fun p hp => List.findIdx?_eq_none_iff.mp hfirst p hp
    obtain ⟨chunks, hchunks, hkeys, _⟩ := readChunks_plain 0 hplain
    have hunused : ∃ key ∈ memoryObjMap.keys, key ∉ (usedObjs memoryObjMap segments).map Prod.fst := by
      have hnot := h.1
      push Not at hnot
      exact hnot hplain
    obtain ⟨key, hkey, hnot⟩ := hunused
    obtain ⟨memoryObj, hget⟩ := (Dict.mem_keys_iff _ _).mp hkey
    rw [hchunks]
    refine ⟨memoryObj, List.mem_append_left _ ?_⟩
    refine List.mem_append_right _ (List.mem_map_of_mem (mem_unusedObjs.mpr ⟨key, hget, ?_⟩))
    rwa [hkeys]
  | some n =>
    have hgranted : call.granted n = true := by
      rw [← Bool.not_eq_false]
      exact fun hrefused => h.2 ⟨n, hfirst, hrefused⟩
    obtain ⟨memoryObj, hmem⟩ := (readChunks_decoding 0 hfirst).2 (by rwa [Nat.zero_add])
    refine ⟨memoryObj, List.mem_append_left _ ?_⟩
    cases hread : engine.readChunks call memoryObjMap segments 0 with
    | mk res log =>
      rw [hread] at hmem
      cases res with
      | error e => exact hmem
      | ok chunks => exact List.mem_append_left _ hmem

end AsyncEngine

end LMCache
