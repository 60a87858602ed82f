import LMCache.Distributed.ObjectKey
import LMCache.Multiprocess.SessionCalls

namespace LMCache

open List PrecisionEnv Nat

def chunkRangeForKey (key : IPCCacheEngineKey) (chunkSize : ℕ) : Except String (ℕ × ℕ) :=
  if key.start % chunkSize ≠ 0 ∨ key.stop % chunkSize ≠ 0 then
    .error ("MP precision routing requires chunk-aligned key range: " ++
      s!"start={key.start}, end={key.stop}, chunk_size={chunkSize}")
  else .ok (key.start / chunkSize, key.stop / chunkSize)

def totalChunksForKey (key : IPCCacheEngineKey) (chunkSize : ℕ) : ℕ :=
  key.tokenIds.length / chunkSize

def precisionTiersForKeyRange (env : PrecisionEnv) (key : IPCCacheEngineKey) (chunkSize : ℕ) :
    Except String (List Tier) :=
  (chunkRangeForKey key chunkSize).bind fun range =>
    env.precisionTiersForRange (totalChunksForKey key chunkSize) range.1 range.2

structure MPCacheEngine (H B : Type) where
  env : PrecisionEnv
  tokenHasher : TokenHasher H B

namespace MPCacheEngine

variable {H B : Type}

def chunkSize (engine : MPCacheEngine H B) : ℕ := engine.tokenHasher.chunkSize

variable (engine : MPCacheEngine H B) (key : IPCCacheEngineKey)

def rangeKeys (chunkHashes : List B) : Except String (List (ObjectKey B)) :=
  (precisionTiersForKeyRange engine.env key engine.chunkSize).bind
    (key.objectKeys engine.env chunkHashes)

def workerKeys (workerIdMessage : String) (engine : MPCacheEngine H B) (session : Session H)
    (key : IPCCacheEngineKey) : Except String (List (ObjectKey B)) × Session H :=
  let session := session.setTokens key.tokenIds
  match session.getHashes engine.tokenHasher key.start key.stop with
  | .error message => (.error message, session)
  | .ok (hashes, session) =>
      if key.workerId.isNone then (.error workerIdMessage, session)
      else (engine.rangeKeys key (hashes.map engine.tokenHasher.hashToBytes), session)

def storeKeys : MPCacheEngine H B → Session H → IPCCacheEngineKey →
    Except String (List (ObjectKey B)) × Session H :=
  workerKeys "Must store with worker_id != None"

def spanKeys (objKeys : List (ObjectKey B)) (keysPerChunk : ℕ) (span : TierSpan) :
    Option (ℕ × List (ObjectKey B)) :=
  let keys := Slice.slice objKeys (span.start * keysPerChunk) (span.stop * keysPerChunk)
  if keys.isEmpty then none else some (span.stop - span.start, keys)

def lookupSpans : Except String (List (ℕ × List (ObjectKey B))) :=
  let chunkHashes := engine.tokenHasher.computeChunkHashes key.tokenIds 0 none
  if chunkHashes.isEmpty then .ok []
  else
    (engine.env.precisionTiersForRange chunkHashes.length 0 chunkHashes.length).bind fun tiers =>
      (key.objectKeys engine.env chunkHashes tiers).bind fun objKeys =>
        .ok ((groupPrecisionTierSpans tiers).filterMap (spanKeys objKeys key.keysPerChunk))

def chunkTier (idx : ℕ) : Tier :=
  (engine.env.tiersFor (totalChunksForKey key engine.chunkSize))[idx]?.getD .full

def chunkKey (idx workerId : ℕ) : ObjectKey B :=
  key.objectKey engine.env (engine.tokenHasher.chunkHash key.tokenIds idx)
    (engine.chunkTier key idx) workerId

def keysBetween (startChunk endChunk : ℕ) : List (ObjectKey B) :=
  (range' startChunk (endChunk - startChunk)).flatMap fun idx =>
    key.workers.map (engine.chunkKey key idx)

variable {startChunk endChunk : ℕ}

theorem slice_tiers (hstop : endChunk ≤ totalChunksForKey key engine.chunkSize) :
    Slice.slice (engine.env.tiersFor (totalChunksForKey key engine.chunkSize)) startChunk endChunk =
      (range' startChunk (endChunk - startChunk)).map (engine.chunkTier key) := by
  refine ext_getElem? fun i => ?_
  rw [Slice.getElem?_slice, getElem?_map]
  split_ifs with hlt
  · have hi : startChunk + i < (engine.env.tiersFor
        (totalChunksForKey key engine.chunkSize)).length := by
      rw [length_tiersFor]
      omega
    rw [getElem?_range' (by omega), one_mul, Option.map_some, chunkTier,
      getElem?_eq_getElem hi, Option.getD_some]
  · rw [getElem?_eq_none (by rw [length_range']; omega), Option.map_none]

theorem objectKeys_eq (startChunk endChunk : ℕ) :
    key.objectKeys engine.env
        ((range' startChunk (endChunk - startChunk)).map
          (engine.tokenHasher.chunkHash key.tokenIds))
        ((range' startChunk (endChunk - startChunk)).map (engine.chunkTier key)) =
      .ok (engine.keysBetween key startChunk endChunk) := by
  refine (if_neg (by simp)).trans (congrArg Except.ok ?_)
  rw [zip_map', flatMap_map]
  rfl

variable {engine key} in
theorem rangeKeys_eq (hstart : key.start = startChunk * engine.chunkSize)
    (hstop : key.stop = endChunk * engine.chunkSize) (hle : startChunk ≤ endChunk)
    (htotal : endChunk ≤ totalChunksForKey key engine.chunkSize) :
    engine.rangeKeys key ((range' startChunk (endChunk - startChunk)).map
        (engine.tokenHasher.chunkHash key.tokenIds)) =
      .ok (engine.keysBetween key startChunk endChunk) := by
  have hpos : 0 < engine.chunkSize := engine.tokenHasher.chunkSizePos
  have hrange : chunkRangeForKey key engine.chunkSize = .ok (startChunk, endChunk) := by
    rw [chunkRangeForKey, hstart, hstop, if_neg (by simp), Nat.mul_div_cancel _ hpos,
      Nat.mul_div_cancel _ hpos]
  have htiers : precisionTiersForKeyRange engine.env key engine.chunkSize =
      .ok ((range' startChunk (endChunk - startChunk)).map (engine.chunkTier key)) := by
    rw [precisionTiersForKeyRange, hrange, ← engine.slice_tiers key htotal]
    exact if_neg (by omega)
  rw [rangeKeys, htiers]
  exact engine.objectKeys_eq key startChunk endChunk

variable {engine key} in
theorem workerKeys_eq {message : String} {session : Session H}
    (hsettled : session.Settled engine.tokenHasher) (hextends : session.tokenIds <+: key.tokenIds)
    (hworker : key.workerId.isSome) (hstart : key.start = startChunk * engine.chunkSize)
    (hstop : key.stop = endChunk * engine.chunkSize) (hle : startChunk ≤ endChunk)
    (htotal : endChunk ≤ totalChunksForKey key engine.chunkSize) :
    (workerKeys message engine session key).1 = .ok (engine.keysBetween key startChunk endChunk) := by
  obtain ⟨session', hhashes, -⟩ := Session.getHashes_eq (hsettled.setTokens hextends).computed
    startChunk endChunk fun _ _ => rfl
  have hsome : key.workerId.isNone = false := by simpa using hworker
  simp only [workerKeys, hstart, hstop, chunkSize, hhashes, hsome, Bool.false_eq_true, if_false,
    map_map]
  exact rangeKeys_eq hstart hstop hle htotal

theorem computeChunkHashes_all :
    engine.tokenHasher.computeChunkHashes key.tokenIds 0 none =
      (range (totalChunksForKey key engine.chunkSize)).map
        (engine.tokenHasher.chunkHash key.tokenIds) := by
  have h := engine.tokenHasher.computeChunkHashes_eq key.tokenIds 0 none
  rw [zero_mul] at h
  rw [h, range_eq_range']
  rfl

theorem length_keysBetween (startChunk endChunk : ℕ) :
    (engine.keysBetween key startChunk endChunk).length =
      (endChunk - startChunk) * key.keysPerChunk := by
  simp [keysBetween, length_flatMap, key.length_workers]

theorem keysBetween_append {middle : ℕ} (h1 : startChunk ≤ middle) (h2 : middle ≤ endChunk) :
    engine.keysBetween key startChunk middle ++ engine.keysBetween key middle endChunk =
      engine.keysBetween key startChunk endChunk := by
  have hrange : range' startChunk (endChunk - startChunk) =
      range' startChunk (middle - startChunk) ++ range' middle (endChunk - middle) := by
    have h : range' startChunk (middle - startChunk) 1 ++
        range' (startChunk + 1 * (middle - startChunk)) (endChunk - middle) 1 =
          range' startChunk (middle - startChunk + (endChunk - middle)) 1 := range'_append
    rw [one_mul, show startChunk + (middle - startChunk) = middle by omega,
      show middle - startChunk + (endChunk - middle) = endChunk - startChunk by omega] at h
    exact h.symm
  rw [keysBetween, keysBetween, keysBetween, hrange, flatMap_append]

theorem take_keysBetween {n : ℕ} (h : n ≤ endChunk) :
    (engine.keysBetween key 0 endChunk).take (n * key.keysPerChunk) = engine.keysBetween key 0 n := by
  rw [← engine.keysBetween_append key (zero_le n) h]
  exact take_left' (engine.length_keysBetween key 0 n)

theorem slice_keysBetween {total : ℕ} (hle : startChunk ≤ endChunk) (htotal : endChunk ≤ total) :
    Slice.slice (engine.keysBetween key 0 total) (startChunk * key.keysPerChunk)
        (endChunk * key.keysPerChunk) = engine.keysBetween key startChunk endChunk := by
  rw [Slice.slice, engine.take_keysBetween key htotal,
    ← engine.keysBetween_append key (zero_le startChunk) hle]
  exact drop_left' (engine.length_keysBetween key 0 startChunk)

theorem keysPerChunk_pos : 0 < key.keysPerChunk := by
  rw [IPCCacheEngineKey.keysPerChunk]
  split_ifs
  · exact key.worldSizePos
  · exact one_pos

def tiersOf (engine : MPCacheEngine H B) (key : IPCCacheEngineKey) : List Tier :=
  engine.env.tiersFor (totalChunksForKey key engine.chunkSize)

@[simp] theorem length_tiersOf :
    (engine.tiersOf key).length = totalChunksForKey key engine.chunkSize :=
  length_tiersFor _ _

theorem lookupSpans_eq :
    engine.lookupSpans key = .ok ((groupPrecisionTierSpans (engine.tiersOf key)).map fun span =>
      (span.stop - span.start, engine.keysBetween key span.start span.stop)) := by
  have htiers : engine.tiersOf key =
      (range (totalChunksForKey key engine.chunkSize)).map (engine.chunkTier key) := by
    rw [range_eq_range', ← Nat.sub_zero (totalChunksForKey key engine.chunkSize),
      ← engine.slice_tiers key le_rfl]
    exact (Slice.slice_all _ (length_tiersFor _ _).le).symm
  have hkeys := engine.objectKeys_eq key 0 (totalChunksForKey key engine.chunkSize)
  rw [Nat.sub_zero, ← range_eq_range', ← htiers] at hkeys
  rw [lookupSpans, computeChunkHashes_all]
  simp only [isEmpty_map, length_map, length_range, precisionTiersForRange_all]
  split_ifs with hnone
  · rw [htiers, isEmpty_iff.mp hnone]
    rfl
  · change (key.objectKeys engine.env _ (engine.tiersOf key)).bind _ = _
    rw [hkeys]
    refine congrArg Except.ok ?_
    rw [← filterMap_eq_map]
    refine filterMap_congr fun span hspan => ?_
    obtain ⟨hlt, hle⟩ := bounds_groupPrecisionTierSpans span hspan
    have hsome : (engine.keysBetween key span.start span.stop).isEmpty = false := by
      rw [isEmpty_eq_false_iff, ← length_pos_iff, length_keysBetween]
      exact Nat.mul_pos (Nat.sub_pos_of_lt hlt) (keysPerChunk_pos key)
    rw [length_tiersFor] at hle
    simp only [spanKeys, engine.slice_keysBetween key hlt.le hle, hsome]
    rfl

theorem flatMap_lookupSpans :
    (groupPrecisionTierSpans (engine.tiersOf key)).flatMap (fun span =>
        engine.keysBetween key span.start span.stop) =
      engine.keysBetween key 0 (totalChunksForKey key engine.chunkSize) := by
  have hslices := flatMap_groupPrecisionTierSpans
    (engine.keysBetween key 0 (totalChunksForKey key engine.chunkSize)) key.keysPerChunk
    (engine.tiersOf key)
  rw [length_tiersOf, engine.take_keysBetween key le_rfl] at hslices
  refine Eq.trans (flatMap_congr fun span hspan => ?_) hslices
  obtain ⟨hlt, hle⟩ := bounds_groupPrecisionTierSpans span hspan
  rw [length_tiersOf] at hle
  exact (engine.slice_keysBetween key hlt.le hle).symm

end MPCacheEngine

end LMCache
