import LMCache.CacheController.Registry
import LMCache.TokenDatabase

namespace LMCache

open List

structure LookupMsg where
  eventId : String
  tokens : List ℕ

structure LookupRetMsg where
  layoutInfo : Dict String (String × ℕ)
  eventId : String

structure KVController (H E : Type) where
  tokenDatabase : ChunkedTokenDatabase H E
  registry : RegistryTree (WorkerNode H)

namespace KVController

variable {H E : Type} [DecidableEq H]

def create (noneHash : H) (hashFunc : H × List ℕ × List E → H)
    (registry : RegistryTree (WorkerNode H)) : KVController H E :=
  ⟨.default noneHash hashFunc, registry⟩

def matchChunks (registry : RegistryTree (WorkerNode H)) :
    List (ℕ × ℕ × H) → Dict String (String × ℕ) → Dict String (String × ℕ)
  | [], layoutInfo => layoutInfo
  | (_, stop, key) :: rest, layoutInfo =>
      match registry.findKv key none with
      | none => layoutInfo
      | some result =>
          matchChunks registry rest (layoutInfo.set result.instanceId (result.location, stop))

variable (controller : KVController H E)

def lookup (msg : LookupMsg) : Except String LookupRetMsg :=
  (controller.tokenDatabase.processTokens id (some msg.tokens) none none none).map fun segments =>
    ⟨matchChunks controller.registry segments .empty, msg.eventId⟩

def UsablePrefixes (msg : LookupMsg) : Prop :=
  ∀ segments ret,
    controller.tokenDatabase.processTokens id (some msg.tokens) none none none = .ok segments →
    controller.lookup msg = .ok ret →
    ∀ instanceId location stop, ret.layoutInfo.get? instanceId = some (location, stop) →
      ∀ segment ∈ segments, segment.2.1 ≤ stop →
        controller.registry.HeldBy instanceId segment.2.2

def covered (registry : RegistryTree (WorkerNode H)) (segments : List (ℕ × ℕ × H)) :
    List (ℕ × ℕ × H) :=
  segments.takeWhile fun segment => (registry.firstHolder segment.2.2).isSome

def FirstHoldersHavePrefix (msg : LookupMsg) : Prop :=
  ∀ segments,
    controller.tokenDatabase.processTokens id (some msg.tokens) none none none = .ok segments →
    ∀ segment ∈ covered controller.registry segments, ∀ instanceId,
      controller.registry.firstHolder segment.2.2 = some instanceId →
      ∀ earlier ∈ segments, earlier.2.1 < segment.2.1 →
        controller.registry.HeldBy instanceId earlier.2.2

variable {registry : RegistryTree (WorkerNode H)} {stop : ℕ}

theorem covered_cons_of_some {key : H} {result : KVChunkInfo}
    (h : registry.findKv key none = some result) (start : ℕ) (segments : List (ℕ × ℕ × H)) :
    covered registry ((start, stop, key) :: segments) =
      (start, stop, key) :: covered registry segments := by
  have hholder := registry.findKv_instanceId key
  rw [h] at hholder
  rw [covered, takeWhile_cons_of_pos (by rw [← hholder]; rfl)]
  rfl

theorem covered_cons_of_none {key : H} (h : registry.findKv key none = none) (start : ℕ)
    (segments : List (ℕ × ℕ × H)) :
    covered registry ((start, stop, key) :: segments) = [] := by
  have hholder := registry.findKv_instanceId key
  rw [h] at hholder
  rw [covered, takeWhile_cons_of_neg (by rw [← hholder]; simp)]

variable {segments : List (ℕ × ℕ × H)}
  {layoutInfo : Dict String (String × ℕ)} {instanceId location : String}

theorem entry_of_matchChunks
    (h : (matchChunks registry segments layoutInfo).get? instanceId = some (location, stop)) :
    layoutInfo.get? instanceId = some (location, stop) ∨
      ∃ segment ∈ covered registry segments,
        registry.firstHolder segment.2.2 = some instanceId ∧ segment.2.1 = stop := by
  induction segments generalizing layoutInfo with
  | nil => exact .inl h
  | cons segment segments ih =>
    obtain ⟨start, stop', key⟩ := segment
    cases hfound : registry.findKv key none with
    | none =>
      simp only [matchChunks, hfound] at h
      exact .inl h
    | some result =>
      simp only [matchChunks, hfound] at h
      rw [covered_cons_of_some hfound]
      have hholder := registry.findKv_instanceId key
      rw [hfound, Option.map_some] at hholder
      rcases ih h with hset | ⟨segment, hmem, hsegment⟩
      · rw [Dict.get?_set] at hset
        split_ifs at hset with hid
        · refine .inr ⟨_, mem_cons_self, ?_, ?_⟩
          · rw [← hholder, hid]
          · exact (Prod.mk.inj (Option.some.inj hset)).2
        · exact .inl hset
      · exact .inr ⟨segment, mem_cons_of_mem _ hmem, hsegment⟩

theorem entry_persists (h : layoutInfo.get? instanceId = some (location, stop))
    (hends : segments.Pairwise fun a b => a.2.1 < b.2.1)
    (hlater : ∀ segment ∈ segments, stop ≤ segment.2.1) :
    ∃ location' stop', stop ≤ stop' ∧
      (matchChunks registry segments layoutInfo).get? instanceId = some (location', stop') := by
  induction segments generalizing layoutInfo location stop with
  | nil => exact ⟨location, stop, Nat.le_refl _, h⟩
  | cons segment segments ih =>
    obtain ⟨start, stop', key⟩ := segment
    obtain ⟨hhead, htail⟩ := pairwise_cons.mp hends
    rw [matchChunks]
    cases hfound : registry.findKv key none with
    | none => exact ⟨location, stop, Nat.le_refl _, h⟩
    | some result =>
      by_cases hid : result.instanceId = instanceId
      · subst hid
        obtain ⟨location', last, hle, hget⟩ := ih (Dict.get?_set_self _ _ _) htail
          fun segment hmem => Nat.le_of_lt (hhead segment hmem)
        exact ⟨location', last, Nat.le_trans (hlater _ mem_cons_self) hle, hget⟩
      · have hkept : (layoutInfo.set result.instanceId (result.location, stop')).get? instanceId =
            some (location, stop) := by
          rw [Dict.get?_set_ne _ _ hid]
          exact h
        exact ih hkept htail fun segment hmem => hlater segment (mem_cons_of_mem _ hmem)

theorem exists_entry (layoutInfo : Dict String (String × ℕ)) {instanceId : String}
    {segment : ℕ × ℕ × H} (hends : segments.Pairwise fun a b => a.2.1 < b.2.1)
    (hmem : segment ∈ covered registry segments)
    (hholder : registry.firstHolder segment.2.2 = some instanceId) :
    ∃ location stop, segment.2.1 ≤ stop ∧
      (matchChunks registry segments layoutInfo).get? instanceId = some (location, stop) := by
  induction segments generalizing layoutInfo with
  | nil => exact absurd hmem (not_mem_nil)
  | cons head segments ih =>
    obtain ⟨start, stop, key⟩ := head
    obtain ⟨hhead, htail⟩ := pairwise_cons.mp hends
    rw [matchChunks]
    cases hfound : registry.findKv key none with
    | none =>
      rw [covered_cons_of_none hfound] at hmem
      exact absurd hmem not_mem_nil
    | some result =>
      rw [covered_cons_of_some hfound] at hmem
      rcases mem_cons.mp hmem with rfl | hlater
      · have hid := registry.findKv_instanceId key
        rw [hholder, hfound, Option.map_some, Option.some.injEq] at hid
        subst hid
        exact entry_persists (Dict.get?_set_self _ _ _) htail fun segment hmem =>
          Nat.le_of_lt (hhead segment hmem)
      · exact ih _ htail hlater

theorem usablePrefixes_iff (controller : KVController H E) (msg : LookupMsg) :
    UsablePrefixes controller msg ↔ FirstHoldersHavePrefix controller msg := by
  constructor
  · intro husable segments hsegments segment hmem instanceId hholder earlier hearlier hlt
    have hends := (controller.tokenDatabase.consecutive_of_processTokens hsegments).pairwise_lt
    obtain ⟨location, stop, hle, hget⟩ := exists_entry .empty hends hmem hholder
    refine husable segments _ hsegments (by rw [lookup, hsegments]; rfl) instanceId location stop
      hget earlier hearlier (by omega)
  · intro hprefix segments ret hsegments hret instanceId location stop hget segment hmem hle
    have hends := (controller.tokenDatabase.consecutive_of_processTokens hsegments).pairwise_lt
    rw [lookup, hsegments] at hret
    obtain rfl := Except.ok.inj hret
    rcases entry_of_matchChunks hget with hempty | ⟨last, hlast, hholder, rfl⟩
    · exact absurd hempty (by simp)
    · rcases Nat.lt_or_eq_of_le hle with hlt | heq
      · exact hprefix segments hsegments last hlast instanceId hholder segment hmem hlt
      · have hsame : segment = last :=
          inj_on_of_nodup_map (pairwise_map.mpr (hends.imp fun h => Nat.ne_of_lt h)) hmem
            (takeWhile_subset _ hlast) heq
        rw [hsame]
        exact controller.registry.heldBy_of_firstHolder _ hholder

def spreadTokens : List ℕ := replicate 512 0

def spreadHash (chunks : ℕ) : List (List ℕ × List ℕ) :=
  replicate chunks (replicate 256 0, [])

def holding (key : List (List ℕ × List ℕ)) : WorkerNode (List (List ℕ × List ℕ)) :=
  { (WorkerNode.create 0 : WorkerNode (List (List ℕ × List ℕ))) with
    kvStore := Dict.empty.set "LocalCPUBackend" {key} }

def spread : KVController (List (List ℕ × List ℕ)) ℕ :=
  create [] (fun a => (a.2.1, a.2.2) :: a.1)
    ((RegistryTree.empty.registerWorker "a" 0 (holding (spreadHash 1))).registerWorker "b" 0
      (holding (spreadHash 2)))

def spreadAnswer : LookupRetMsg :=
  ⟨matchChunks spread.registry [(0, 256, spreadHash 1), (256, 512, spreadHash 2)] .empty, "lookup"⟩

theorem not_usablePrefixes_spread : ¬ UsablePrefixes spread ⟨"lookup", spreadTokens⟩ := by
  intro h
  have hsegments : spread.tokenDatabase.tokenSegments id spreadTokens 0 =
      [(0, 256, spreadHash 1), (256, 512, spreadHash 2)] := by decide +kernel
  have hprocess : spread.tokenDatabase.processTokens id (some spreadTokens) none none none =
      .ok [(0, 256, spreadHash 1), (256, 512, spreadHash 2)] := by
    rw [ChunkedTokenDatabase.processTokens_unmasked, hsegments]
  have hlookup : spread.lookup ⟨"lookup", spreadTokens⟩ = .ok spreadAnswer := by
    rw [lookup, hprocess]
    rfl
  have hlayout : spreadAnswer.layoutInfo.get? "b" = some ("LocalCPUBackend", 512) := by
    decide +kernel
  have hle : (0, 256, spreadHash 1).2.1 ≤ 512 := by decide +kernel
  have hheld := h _ _ hprocess hlookup "b" _ _ hlayout _ mem_cons_self hle
  exact absurd hheld (by decide +kernel)

end KVController

end LMCache
