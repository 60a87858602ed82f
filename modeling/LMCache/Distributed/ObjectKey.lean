import Mathlib.Data.Nat.Bitwise
import Mathlib.Data.List.Nodup
import LMCache.Multiprocess.PrecisionCodec

namespace LMCache

open Nat List

structure IPCCacheEngineKey where
  modelName : String
  worldSize : ℕ
  workerId : Option ℕ
  tokenIds : List ℕ
  start : ℕ
  stop : ℕ
  requestId : String
  worldSizePos : 0 < worldSize

structure ObjectKey (B : Type) where
  chunkHash : B
  modelName : String
  kvRank : ℕ
deriving DecidableEq, Repr

def computeKVRank (worldSize globalRank localWorldSize localRank : ℕ) : ℕ :=
  worldSize <<< 24 ||| globalRank <<< 16 ||| localWorldSize <<< 8 ||| localRank

namespace IPCCacheEngineKey

variable {B : Type} (key : IPCCacheEngineKey)

def workers : List ℕ :=
  match key.workerId with
  | none => range key.worldSize
  | some workerId => [workerId]

variable (env : PrecisionEnv)

def objectKey (chunkHash : B) (tier : Tier) (workerId : ℕ) : ObjectKey B where
  chunkHash := chunkHash
  modelName := env.namespaceModelNameForPrecision key.modelName tier
  kvRank := computeKVRank key.worldSize workerId key.worldSize workerId

def chunkKeys (chunk : B × Tier) : List (ObjectKey B) :=
  key.workers.map (key.objectKey env chunk.1 chunk.2)

def objectKeys (chunkHashes : List B) (precisionTiers : List Tier) :
    Except String (List (ObjectKey B)) :=
  if precisionTiers.length ≠ chunkHashes.length then
    .error (s!"precision_tiers length must match chunk_hashes length: " ++
      s!"{precisionTiers.length} != {chunkHashes.length}")
  else .ok ((chunkHashes.zip precisionTiers).flatMap (key.chunkKeys env))

def keysPerChunk : ℕ :=
  if key.workerId.isNone then key.worldSize else 1

theorem length_workers : key.workers.length = key.keysPerChunk := by
  cases h : key.workerId <;> simp [workers, keysPerChunk, h]

theorem nodup_workers : key.workers.Nodup := by
  cases h : key.workerId <;> simp [workers, h, nodup_range]

theorem nodup_objectKeys {key : IPCCacheEngineKey}
    (hranks : ∀ w ∈ key.workers, ∀ w' ∈ key.workers, computeKVRank key.worldSize w key.worldSize w =
      computeKVRank key.worldSize w' key.worldSize w' → w = w')
    (env : PrecisionEnv) {chunkHashes : List B} (hhashes : chunkHashes.Nodup) {tiers : List Tier}
    (hlen : chunkHashes.length ≤ tiers.length) :
    ((chunkHashes.zip tiers).flatMap (key.chunkKeys env)).Nodup := by
  have hzip : ((chunkHashes.zip tiers).map Prod.fst).Nodup := by
    rwa [map_fst_zip hlen]
  refine nodup_flatMap.mpr ⟨fun chunk _ => ?_, ?_⟩
  · refine key.nodup_workers.map_on fun w hw w' hw' h => ?_
    exact hranks w hw w' hw' (congrArg ObjectKey.kvRank h)
  · refine (pairwise_map.mp hzip).imp fun hne k hk hk' => hne ?_
    obtain ⟨_, _, rfl⟩ := mem_map.mp hk
    obtain ⟨_, _, heq⟩ := mem_map.mp hk'
    exact (congrArg ObjectKey.chunkHash heq).symm

theorem length_objectKeys (chunks : List (B × Tier)) :
    (chunks.flatMap (key.chunkKeys env)).length = chunks.length * key.keysPerChunk := by
  induction chunks with
  | nil => simp
  | cons chunk chunks ih =>
    rw [flatMap_cons, length_append, ih, length_cons, succ_mul, chunkKeys,
      length_map, length_workers, add_comm]

end IPCCacheEngineKey

theorem or_two_pow_of_testBit {n i : ℕ} (h : n.testBit i = true) : n ||| 2 ^ i = n := by
  refine eq_of_testBit_eq fun j => ?_
  rw [testBit_or, testBit_two_pow]
  by_cases hij : i = j
  · rw [← hij, h, Bool.true_or]
  · rw [decide_eq_false hij, Bool.or_false]

def spread (n : ℕ) : ℕ := n ||| n <<< 16

theorem testBit_spread (n i : ℕ) :
    (spread n).testBit i = (n.testBit i || (decide (16 ≤ i) && n.testBit (i - 16))) := by
  rw [spread, testBit_or, testBit_shiftLeft]

theorem spread_or (m n : ℕ) : spread (m ||| n) = spread m ||| spread n := by
  rw [spread, spread, spread, shiftLeft_or_distrib]
  ac_rfl

theorem spread_zero : spread 0 = 0 := rfl

theorem spread_two_pow (i : ℕ) : spread (2 ^ i) = 2 ^ i ||| 2 ^ (i + 16) := by
  rw [spread, shiftLeft_eq, ← pow_add]

theorem testBit_spread_of_testBit {n i : ℕ} (h : n.testBit i = true) :
    (spread n).testBit i = true ∧ (spread n).testBit (i + 16) = true := by
  rw [testBit_spread, testBit_spread, h, Nat.add_sub_cancel, h]
  simp

theorem spread_inj {m n : ℕ} (hm : m < 2 ^ 32) (hn : n < 2 ^ 32) (h : spread m = spread n) :
    m = n := by
  refine eq_of_testBit_eq fun i => ?_
  rcases lt_or_ge i 32 with hlt | hge
  · rcases lt_or_ge i 16 with hlow | hhigh
    · have hbit := congrArg (fun k => k.testBit i) h
      simpa only [testBit_spread, Nat.not_le.mpr hlow, decide_false, Bool.false_and,
        Bool.or_false] using hbit
    · have hpow : (2 : ℕ) ^ 32 ≤ 2 ^ (i + 16) := Nat.pow_le_pow_right (by decide) (by omega)
      have hbit := congrArg (fun k => k.testBit (i + 16)) h
      simpa only [testBit_spread, Nat.testBit_eq_false_of_lt (hm.trans_le hpow),
        Nat.testBit_eq_false_of_lt (hn.trans_le hpow), Nat.add_sub_cancel, Nat.le_add_left,
        decide_true, Bool.true_and, Bool.false_or] using hbit
  · have hpow : (2 : ℕ) ^ 32 ≤ 2 ^ i := Nat.pow_le_pow_right (by decide) hge
    rw [Nat.testBit_eq_false_of_lt (hm.trans_le hpow), Nat.testBit_eq_false_of_lt (hn.trans_le hpow)]

theorem computeKVRank_worker (worldSize workerId : ℕ) :
    computeKVRank worldSize workerId worldSize workerId =
      spread (worldSize <<< 8) ||| spread workerId := by
  have hshift : worldSize <<< 8 <<< 16 = worldSize <<< 24 := (Nat.shiftLeft_add _ 8 16).symm
  rw [computeKVRank, spread, spread, hshift]
  generalize worldSize <<< 24 = a, worldSize <<< 8 = b, workerId <<< 16 = c
  rw [Nat.or_comm b a, Nat.or_assoc, Nat.or_assoc, Nat.or_assoc, Nat.or_left_comm c, Nat.or_comm c]

def RanksApart (worldSize : ℕ) : Prop :=
  worldSize < 2 ^ 24 ∧ ∀ i < 24, worldSize.testBit i = true → worldSize < 2 ^ (i + 8)

instance (worldSize : ℕ) : Decidable (RanksApart worldSize) :=
  inferInstanceAs (Decidable (_ ∧ ∀ i < 24, _ → _))

theorem RanksApart.inj {worldSize w w' : ℕ} (h : RanksApart worldSize) (hw : w < worldSize)
    (hw' : w' < worldSize) (heq : computeKVRank worldSize w worldSize w =
      computeKVRank worldSize w' worldSize w') : w = w' := by
  obtain ⟨hlt, hbits⟩ := h
  have hshift : worldSize <<< 8 < 2 ^ 32 := by
    rw [shiftLeft_eq]
    omega
  rw [computeKVRank_worker, computeKVRank_worker, ← spread_or, ← spread_or] at heq
  have hor := spread_inj (or_lt_two_pow hshift (by omega)) (or_lt_two_pow hshift (by omega))
    heq
  refine eq_of_testBit_eq fun i => ?_
  cases hmask : (worldSize <<< 8).testBit i with
  | false =>
    have hbit := congrArg (fun k => k.testBit i) hor
    simpa only [testBit_or, hmask, Bool.false_or] using hbit
  | true =>
    rw [testBit_shiftLeft, Bool.and_eq_true, decide_eq_true_eq] at hmask
    obtain ⟨hge, hbit⟩ := hmask
    have hi : i - 8 < 24 := by
      by_contra hnot
      have hpow : (2 : ℕ) ^ 24 ≤ 2 ^ (i - 8) := Nat.pow_le_pow_right (by decide) (by omega)
      rw [testBit_eq_false_of_lt (hlt.trans_le hpow)] at hbit
      cases hbit
    have hworld := hbits (i - 8) hi hbit
    rw [Nat.sub_add_cancel hge] at hworld
    rw [testBit_eq_false_of_lt (hw.trans hworld), testBit_eq_false_of_lt (hw'.trans hworld)]

theorem hidden_of_testBit {worldSize i : ℕ} (hbit : worldSize.testBit i = true) :
    computeKVRank worldSize (2 ^ (i + 8)) worldSize (2 ^ (i + 8)) =
      computeKVRank worldSize 0 worldSize 0 := by
  have hshift : (worldSize <<< 8).testBit (i + 8) = true := by
    rw [Nat.testBit_shiftLeft, Nat.add_sub_cancel, hbit]
    simp
  obtain ⟨hlow, hhigh⟩ := testBit_spread_of_testBit hshift
  rw [computeKVRank_worker, computeKVRank_worker, spread_two_pow, ← Nat.or_assoc,
    or_two_pow_of_testBit hlow, or_two_pow_of_testBit hhigh, spread_zero, or_zero]

theorem hidden_of_wide {worldSize i : ℕ} (hbit : worldSize.testBit (i + 24) = true) :
    computeKVRank worldSize (2 ^ i ||| 2 ^ (i + 16)) worldSize (2 ^ i ||| 2 ^ (i + 16)) =
      computeKVRank worldSize (2 ^ i) worldSize (2 ^ i) := by
  have hshift : (worldSize <<< 8).testBit (i + 16 + 16) = true := by
    rw [testBit_shiftLeft, show i + 16 + 16 - 8 = i + 24 by omega, hbit]
    simp
  obtain ⟨hlow, _⟩ := testBit_spread_of_testBit hshift
  have hmask : spread (worldSize <<< 8) ||| 2 ^ (i + 16 + 16) = spread (worldSize <<< 8) :=
    or_two_pow_of_testBit hlow
  rw [computeKVRank_worker, computeKVRank_worker, spread_or, spread_two_pow, spread_two_pow]
  conv_rhs => rw [← hmask]
  refine eq_of_testBit_eq fun j => ?_
  simp only [testBit_or]
  cases (2 ^ i).testBit j <;> cases (2 ^ (i + 16)).testBit j <;>
    cases (2 ^ (i + 16 + 16)).testBit j <;> simp

theorem ranksApart_of_inj {worldSize : ℕ} (h : ∀ w < worldSize, ∀ w' < worldSize,
    computeKVRank worldSize w worldSize w = computeKVRank worldSize w' worldSize w' → w = w') :
    RanksApart worldSize := by
  constructor
  · by_contra hge
    obtain ⟨j, hj, hbit⟩ := exists_ge_and_testBit_of_ge_two_pow (not_lt.mp hge)
    obtain ⟨i, rfl⟩ := Nat.exists_eq_add_of_le' hj
    have hworld : 2 ^ (i + 24) ≤ worldSize := ge_two_pow_of_testBit hbit
    have hpos : 0 < 2 ^ i := Nat.two_pow_pos i
    have hsplit : 2 ^ (i + 24) = 2 ^ i * 2 ^ 24 := pow_add _ _ _
    have hor : 2 ^ i ||| 2 ^ (i + 16) < 2 ^ (i + 17) := by
      refine Nat.or_lt_two_pow ?_ ?_ <;> exact Nat.pow_lt_pow_right (by decide) (by omega)
    have hle : (2 : ℕ) ^ (i + 17) ≤ 2 ^ (i + 24) := Nat.pow_le_pow_right (by decide) (by omega)
    have heq := h _ (by omega) (2 ^ i) (by omega) (hidden_of_wide hbit)
    have hbit' := congrArg (fun k => k.testBit (i + 16)) heq
    simp only [testBit_or, testBit_two_pow, decide_true, Bool.or_true] at hbit'
    simp at hbit'
  · intro i _ hbit
    by_contra hge
    have hne : 2 ^ (i + 8) ≠ worldSize := by
      intro heq
      rw [← heq, testBit_two_pow, decide_eq_true_eq] at hbit
      omega
    have hlt : 2 ^ (i + 8) < worldSize := lt_of_le_of_ne (not_lt.mp hge) hne
    have hzero := h _ hlt 0 (zero_lt_of_lt hlt) (hidden_of_testBit hbit)
    exact (Nat.two_pow_pos _).ne' hzero

namespace IPCCacheEngineKey

variable {B : Type} {key : IPCCacheEngineKey} {env : PrecisionEnv} {chunkHashes : List B}
  {tiers : List Tier}

def ofWorker (key : IPCCacheEngineKey) (workerId : ℕ) : IPCCacheEngineKey :=
  { key with workerId := some workerId }

def ExpandsApart (key : IPCCacheEngineKey) (env : PrecisionEnv) (chunkHashes : List B)
    (tiers : List Tier) : Prop :=
  ∃ keys, key.objectKeys env chunkHashes tiers = .ok keys ∧
    keys.length = chunkHashes.length * key.worldSize ∧
    (∀ workerId < key.worldSize, ∃ own,
      (key.ofWorker workerId).objectKeys env chunkHashes tiers = .ok own ∧
        own.length = chunkHashes.length ∧
        ∀ i < chunkHashes.length, keys[i * key.worldSize + workerId]? = own[i]?) ∧
    keys.Nodup

theorem objectKeys_eq (key : IPCCacheEngineKey) (env : PrecisionEnv)
    (hlength : tiers.length = chunkHashes.length) : key.objectKeys env chunkHashes tiers =
      .ok ((chunkHashes.zip tiers).flatMap (key.chunkKeys env)) :=
  if_neg (not_not.mpr hlength)

theorem workers_lookup (hlookup : key.workerId = none) : key.workers = range key.worldSize := by
  rw [workers, hlookup]

theorem keysPerChunk_lookup (hlookup : key.workerId = none) : key.keysPerChunk = key.worldSize := by
  rw [keysPerChunk, hlookup]
  rfl

theorem objectKeys_ofWorker (key : IPCCacheEngineKey) (env : PrecisionEnv) (workerId : ℕ)
    (chunks : List (B × Tier)) : chunks.flatMap ((key.ofWorker workerId).chunkKeys env) =
      chunks.map fun chunk => key.objectKey env chunk.1 chunk.2 workerId := by
  rw [map_eq_flatMap]
  rfl

theorem getElem?_lookupKeys (hlookup : key.workerId = none) (chunks : List (B × Tier)) (i : ℕ)
    {workerId : ℕ} (hworker : workerId < key.worldSize) :
    (chunks.flatMap (key.chunkKeys env))[i * key.worldSize + workerId]? =
      (chunks.flatMap ((key.ofWorker workerId).chunkKeys env))[i]? := by
  have hwidth : ∀ chunk ∈ chunks, (key.chunkKeys env chunk).length = key.worldSize := fun chunk _ => by
    rw [chunkKeys, length_map, length_workers, keysPerChunk_lookup hlookup]
  rw [Columns.getElem?_flatMap_width hwidth hworker, objectKeys_ofWorker, getElem?_map]
  cases chunks[i]? with
  | none => rfl
  | some chunk =>
    rw [Option.bind_some, chunkKeys, getElem?_map, workers_lookup hlookup, getElem?_range hworker]
    rfl

theorem nodup_lookupKeys (hlookup : key.workerId = none) (hapart : RanksApart key.worldSize)
    (hhashes : chunkHashes.Nodup) (hlength : tiers.length = chunkHashes.length) :
    ((chunkHashes.zip tiers).flatMap (key.chunkKeys env)).Nodup := by
  refine nodup_objectKeys (fun w hw w' hw' => ?_) env hhashes hlength.ge
  rw [workers_lookup hlookup, mem_range] at hw hw'
  exact hapart.inj hw hw'

theorem ranksApart_of_nodup (hlookup : key.workerId = none) (hne : chunkHashes ≠ [])
    (hnodup : ((chunkHashes.zip tiers).flatMap (key.chunkKeys env)).Nodup)
    (hlength : tiers.length = chunkHashes.length) : RanksApart key.worldSize := by
  obtain ⟨chunkHash, rest, rfl⟩ := exists_cons_of_ne_nil hne
  obtain ⟨tier, tiers', rfl⟩ := exists_cons_of_length_eq_add_one hlength
  rw [zip_cons_cons, flatMap_cons, chunkKeys, workers_lookup hlookup] at hnodup
  have hfirst := (nodup_append.mp hnodup).1
  refine ranksApart_of_inj fun w hw w' hw' heq => ?_
  refine inj_on_of_nodup_map hfirst (mem_range.mpr hw) (mem_range.mpr hw') ?_
  rw [objectKey, objectKey, heq]

theorem expandsApart_iff (hlookup : key.workerId = none) (hhashes : chunkHashes.Nodup)
    (hlength : tiers.length = chunkHashes.length) :
    key.ExpandsApart env chunkHashes tiers ↔ chunkHashes = [] ∨ RanksApart key.worldSize := by
  constructor
  · rintro ⟨keys, hkeys, _, _, hnodup⟩
    rw [objectKeys_eq key env hlength] at hkeys
    obtain rfl := Except.ok.inj hkeys
    by_cases hne : chunkHashes = []
    · exact .inl hne
    · exact .inr (ranksApart_of_nodup hlookup hne hnodup hlength)
  · intro h
    refine ⟨_, objectKeys_eq key env hlength, ?_, fun workerId hworker => ?_, ?_⟩
    · rw [length_objectKeys, length_zip, hlength, min_self, keysPerChunk_lookup hlookup]
    · refine ⟨_, objectKeys_eq _ env hlength, ?_, fun i _ => getElem?_lookupKeys hlookup _ i hworker⟩
      rw [objectKeys_ofWorker, length_map, length_zip, hlength, min_self]
    · rcases h with rfl | hapart
      · exact nodup_nil
      · exact nodup_lookupKeys hlookup hapart hhashes hlength

def lookupKey (worldSize : ℕ) (hpos : 0 < worldSize) : IPCCacheEngineKey where
  modelName := "model"
  worldSize := worldSize
  workerId := none
  tokenIds := []
  start := 0
  stop := 0
  requestId := "request"
  worldSizePos := hpos

def fullEnv : PrecisionEnv := ⟨.allFull, "int8", 0, 0, 0, fun _ _ => 0⟩

theorem expandsApart_iff_twoWorkers :
    (lookupKey 2 (by decide)).ExpandsApart fullEnv [5, 7] [.full, .base] ↔
      [5, 7] = [] ∨ RanksApart 2 :=
  expandsApart_iff rfl (by decide) rfl

theorem not_expandsApart_257 :
    ¬ ∀ (key : IPCCacheEngineKey) (env : PrecisionEnv) (chunkHashes : List ℕ) (tiers : List Tier),
      key.workerId = none → chunkHashes.Nodup → tiers.length = chunkHashes.length →
        key.ExpandsApart env chunkHashes tiers := by
  intro h
  obtain ⟨keys, hkeys, _, _, hnodup⟩ :=
    h (lookupKey 257 (by decide)) fullEnv [5] [.full] rfl (by decide) rfl
  obtain rfl := Except.ok.inj (hkeys.symm.trans (objectKeys_eq _ _ rfl))
  have hapart : RanksApart (lookupKey 257 (by decide)).worldSize :=
    ranksApart_of_nodup rfl (cons_ne_nil _ _) hnodup rfl
  exact absurd hapart (by decide)

end IPCCacheEngineKey

end LMCache
