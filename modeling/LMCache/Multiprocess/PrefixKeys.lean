import LMCache.Multiprocess.Server

namespace LMCache

open IPCCacheEngineKey Nat List Option

namespace PrecisionEnv

variable {env : PrecisionEnv}

theorem namespace_inj (env : PrecisionEnv) (modelName : String) (tier tier' : Tier) :
    env.namespaceModelNameForPrecision modelName tier =
      env.namespaceModelNameForPrecision modelName tier' ↔ tier = tier' := by
  have hlonger : modelName ≠ modelName ++ "#precision=base#codec=" ++ env.baseCodec := by
    intro h
    have hlength := congrArg String.length h
    rw [String.length_append, String.length_append] at hlength
    have : "#precision=base#codec=".length = 22 := by decide
    omega
  cases tier <;> cases tier' <;> simp [namespaceModelNameForPrecision, hlonger, hlonger.symm]

theorem tier_uniform (hpolicy : env.policy = .allFull ∨ env.policy = .allBase) {m n idx : ℕ}
    (hm : idx < m) (hn : idx < n) : (env.tiersFor m)[idx]? = (env.tiersFor n)[idx]? := by
  rcases hpolicy with h | h <;> simp [tiersFor, h, hm, hn]

theorem tier_mixed3Span (hpolicy : env.policy = .mixed3Span) {n idx : ℕ} (hn : idx < n) :
    (env.tiersFor n)[idx]? =
      some (if idx < env.sinkChunks ∨ n - env.recentChunks ≤ idx then .full else .base) := by
  have hsink : idx < min env.sinkChunks n ↔ idx < env.sinkChunks := by omega
  simp only [tiersFor, hpolicy, buildMixed3SpanTiers, getElem?_map, getElem?_range hn,
    map_some, hsink, some.injEq]
  split_ifs with hfirst hlast hone hone
  · rfl
  · exact absurd (.inl hfirst) hlast
  · rfl
  · exact absurd (.inr (by omega)) hone
  · exact absurd hone (by omega)
  · rfl

theorem same_tier_mixed3Span (hpolicy : env.policy = .mixed3Span) {m n idx : ℕ} (hm : idx < m)
    (hn : idx < n) : (env.tiersFor m)[idx]? = (env.tiersFor n)[idx]? ↔
      idx < env.sinkChunks ∨ (m - env.recentChunks ≤ idx ↔ n - env.recentChunks ≤ idx) := by
  have hchoice : ∀ p q : Prop, [Decidable p] → [Decidable q] →
      ((if p then Tier.full else .base) = (if q then .full else .base) ↔ (p ↔ q)) := by
    intro p q _ _
    split_ifs with hp hq hq <;> simp [hp, hq]
  rw [tier_mixed3Span hpolicy hm, tier_mixed3Span hpolicy hn, some.injEq, hchoice]
  tauto

end PrecisionEnv

namespace IPCCacheEngineKey

structure Covers (key : IPCCacheEngineKey) (chunkSize idx : ℕ) : Prop where
  start_dvd : chunkSize ∣ key.start
  stop_dvd : chunkSize ∣ key.stop
  start_le : key.start ≤ idx * chunkSize
  le_stop : (idx + 1) * chunkSize ≤ key.stop
  stop_le : key.stop ≤ key.tokenIds.length

end IPCCacheEngineKey

namespace MPCacheEngine

variable {H B : Type}

def Stores (engine : MPCacheEngine H B) (session : Session H) (key : IPCCacheEngineKey) (idx : ℕ)
    (objKey : ObjectKey B) : Prop :=
  ∃ objKeys, (engine.storeKeys session key).1 = .ok objKeys ∧
    objKeys[idx - key.start / engine.chunkSize]? = some objKey

def Probes (engine : MPCacheEngine H B) (key : IPCCacheEngineKey) (idx workerId : ℕ)
    (objKey : ObjectKey B) : Prop :=
  ∃ spans, engine.lookupSpans key = .ok spans ∧
    (spans.flatMap Prod.snd)[idx * key.keysPerChunk + workerId]? = some objKey

variable {engine : MPCacheEngine H B} {session : Session H} {key : IPCCacheEngineKey}
  {idx workerId : ℕ}

theorem getElem?_keysBetween (engine : MPCacheEngine H B) (key : IPCCacheEngineKey)
    {startChunk endChunk : ℕ} (hidx : startChunk + idx < endChunk) {j : ℕ}
    (hj : j < key.keysPerChunk) :
    (engine.keysBetween key startChunk endChunk)[idx * key.keysPerChunk + j]? =
      (key.workers[j]?).map (engine.chunkKey key (startChunk + idx)) := by
  rw [keysBetween, Columns.getElem?_flatMap_width (fun i _ => by rw [length_map, key.length_workers]) hj,
    getElem?_range' (by omega), one_mul, bind_some, getElem?_map]

theorem stores_chunkKey (hsettled : session.Settled engine.tokenHasher)
    (hextends : session.tokenIds <+: key.tokenIds) (hworker : key.workerId = some workerId)
    (hcovers : key.Covers engine.chunkSize idx) :
    engine.Stores session key idx (engine.chunkKey key idx workerId) := by
  have hpos : 0 < engine.chunkSize := engine.tokenHasher.chunkSizePos
  obtain ⟨startChunk, hstart⟩ := hcovers.start_dvd
  obtain ⟨endChunk, hstop⟩ := hcovers.stop_dvd
  rw [mul_comm] at hstart hstop
  have hfirst : startChunk ≤ idx :=
    le_of_mul_le_mul_right (hstart ▸ hcovers.start_le) hpos
  have hlast : idx + 1 ≤ endChunk :=
    le_of_mul_le_mul_right (hstop ▸ hcovers.le_stop) hpos
  have htotal : endChunk ≤ totalChunksForKey key engine.chunkSize :=
    (le_div_iff_mul_le hpos).mpr (hstop ▸ hcovers.stop_le)
  refine ⟨_, workerKeys_eq hsettled hextends (hworker ▸ rfl) hstart hstop (by omega) htotal, ?_⟩
  have hone : key.keysPerChunk = 1 := by
    rw [keysPerChunk, hworker]
    rfl
  have hwithin : startChunk + (idx - startChunk) < endChunk := by omega
  have hget := engine.getElem?_keysBetween key hwithin (j := 0) (by omega)
  rw [hone, mul_one, add_zero, show startChunk + (idx - startChunk) = idx by omega,
    workers, hworker] at hget
  rw [hstart, Nat.mul_div_cancel _ hpos, hget]
  rfl

theorem probes_chunkKey (engine : MPCacheEngine H B) (hlookup : key.workerId = none)
    (hlength : (idx + 1) * engine.chunkSize ≤ key.tokenIds.length)
    (hworker : workerId < key.worldSize) :
    engine.Probes key idx workerId (engine.chunkKey key idx workerId) := by
  have hpos : 0 < engine.chunkSize := engine.tokenHasher.chunkSizePos
  have htotal : idx < totalChunksForKey key engine.chunkSize :=
    (le_div_iff_mul_le hpos).mpr hlength
  have hwidth : key.keysPerChunk = key.worldSize := by
    rw [keysPerChunk, hlookup]
    rfl
  refine ⟨_, engine.lookupSpans_eq key, ?_⟩
  rw [flatMap_map, flatMap_lookupSpans,
    engine.getElem?_keysBetween key (by omega) (by omega), zero_add]
  rw [workers, hlookup, getElem?_range hworker]
  rfl

def tierOf (engine : MPCacheEngine H B) (key : IPCCacheEngineKey) (idx : ℕ) : Option Tier :=
  (engine.tiersOf key)[idx]?

theorem chunkKey_eq_iff {key' : IPCCacheEngineKey} (hmodel : key.modelName = key'.modelName)
    (hsize : key.worldSize = key'.worldSize)
    (hhash : engine.tokenHasher.chunkHash key.tokenIds idx =
      engine.tokenHasher.chunkHash key'.tokenIds idx) :
    engine.chunkKey key idx workerId = engine.chunkKey key' idx workerId ↔
      engine.chunkTier key idx = engine.chunkTier key' idx := by
  rw [chunkKey, chunkKey, objectKey, objectKey, hmodel, hsize,
    hhash, ObjectKey.mk.injEq, ← engine.env.namespace_inj key'.modelName]
  simp

theorem stored_eq_probed_iff {T U : IPCCacheEngineKey}
    (hsettled : session.Settled engine.tokenHasher) (hextends : session.tokenIds <+: T.tokenIds)
    (hmodel : T.modelName = U.modelName) (hsize : T.worldSize = U.worldSize)
    (hstore : T.workerId = some workerId) (hlookup : U.workerId = none)
    (hworker : workerId < T.worldSize) (hcovers : T.Covers engine.chunkSize idx)
    (hlength : (idx + 1) * engine.chunkSize ≤ U.tokenIds.length)
    (hshared : T.tokenIds.take ((idx + 1) * engine.chunkSize) =
      U.tokenIds.take ((idx + 1) * engine.chunkSize)) :
    ∃ stored probed, engine.Stores session T idx stored ∧ engine.Probes U idx workerId probed ∧
      stored.chunkHash = probed.chunkHash ∧ stored.kvRank = probed.kvRank ∧
      (stored = probed ↔ engine.tierOf T idx = engine.tierOf U idx) ∧
      (engine.env.policy = .allFull ∨ engine.env.policy = .allBase → stored = probed) ∧
      (engine.env.policy = .mixed3Span → (stored = probed ↔ idx < engine.env.sinkChunks ∨
        (totalChunksForKey T engine.chunkSize - engine.env.recentChunks ≤ idx ↔
          totalChunksForKey U engine.chunkSize - engine.env.recentChunks ≤ idx))) := by
  have hpos : 0 < engine.chunkSize := engine.tokenHasher.chunkSizePos
  have hT : idx < totalChunksForKey T engine.chunkSize :=
    (le_div_iff_mul_le hpos).mpr (hcovers.le_stop.trans hcovers.stop_le)
  have hU : idx < totalChunksForKey U engine.chunkSize :=
    (le_div_iff_mul_le hpos).mpr hlength
  have hhash : engine.tokenHasher.chunkHash T.tokenIds idx =
      engine.tokenHasher.chunkHash U.tokenIds idx :=
    congrArg engine.tokenHasher.hashToBytes (engine.tokenHasher.rollingHash_congr hshared)
  have htier : engine.chunkKey T idx workerId = engine.chunkKey U idx workerId ↔
      engine.tierOf T idx = engine.tierOf U idx := by
    have hTtier : idx < (engine.tiersOf T).length := by rwa [length_tiersOf]
    have hUtier : idx < (engine.tiersOf U).length := by rwa [length_tiersOf]
    rw [chunkKey_eq_iff hmodel hsize hhash, chunkTier, chunkTier, ← tiersOf, ← tiersOf, tierOf,
      tierOf, getElem?_eq_getElem hTtier, getElem?_eq_getElem hUtier, getD_some,
      getD_some, some.injEq]
  refine ⟨_, _, stores_chunkKey hsettled hextends hstore hcovers,
    engine.probes_chunkKey hlookup hlength (hsize ▸ hworker), hhash, ?_, htier, ?_, ?_⟩
  · rw [chunkKey, chunkKey, objectKey, objectKey, hsize]
  · exact fun hpolicy => htier.mpr (PrecisionEnv.tier_uniform hpolicy hT hU)
  · exact fun hpolicy => htier.trans (PrecisionEnv.same_tier_mixed3Span hpolicy hT hU)

def pairEngine (env : PrecisionEnv) : MPCacheEngine (List ℕ) (List ℕ) := ⟨env, Session.pairHasher⟩

def mixedEnv : PrecisionEnv := ⟨.mixed3Span, "fake", 1, 2, 0, fun _ _ => 0⟩

def storedRequest : IPCCacheEngineKey :=
  ⟨"m", 1, some 0, [1, 2, 3, 4, 5, 6, 7, 8], 0, 8, "T", one_pos⟩

def longerRequest : IPCCacheEngineKey :=
  ⟨"m", 1, none, [1, 2, 3, 4, 5, 6, 7, 8, 9, 10], 0, 10, "U", one_pos⟩

theorem stored_eq_probed_iff_second_chunk :
    ∃ stored probed, (pairEngine mixedEnv).Stores Session.create storedRequest 1 stored ∧
      (pairEngine mixedEnv).Probes longerRequest 1 0 probed ∧
      stored.chunkHash = probed.chunkHash ∧ stored.kvRank = probed.kvRank ∧
      (stored = probed ↔
        (pairEngine mixedEnv).tierOf storedRequest 1 = (pairEngine mixedEnv).tierOf longerRequest 1) ∧
      (mixedEnv.policy = .allFull ∨ mixedEnv.policy = .allBase → stored = probed) ∧
      (mixedEnv.policy = .mixed3Span → (stored = probed ↔ 1 < mixedEnv.sinkChunks ∨
        (totalChunksForKey storedRequest 2 - mixedEnv.recentChunks ≤ 1 ↔
          totalChunksForKey longerRequest 2 - mixedEnv.recentChunks ≤ 1))) :=
  stored_eq_probed_iff (Session.settled_create _) nil_prefix rfl rfl rfl rfl one_pos
    ⟨by decide, by decide, by decide, by decide, by decide⟩ (by decide) (by decide)

theorem not_stored_eq_probed_recent :
    ¬ ∀ stored probed, (pairEngine mixedEnv).Stores Session.create storedRequest 2 stored →
      (pairEngine mixedEnv).Probes longerRequest 2 0 probed → stored = probed := by
  intro h
  have hsame := h ⟨[1, 2, 3, 4, 5, 6], "m", computeKVRank 1 0 1 0⟩
    ⟨[1, 2, 3, 4, 5, 6], "m#precision=base#codec=fake", computeKVRank 1 0 1 0⟩
    ⟨_, rfl, rfl⟩ ⟨_, rfl, rfl⟩
  exact absurd hsame (by decide)

end MPCacheEngine

end LMCache
