import LMCache.Integration.SchedulerConnector
import Mathlib.Algebra.Order.Ring.Nat

namespace LMCache

open List Nat

theorem length_slotsOf (blockSize : ℕ) (blockIds : List ℕ) :
    (slotsOf blockSize blockIds).length = blockIds.length * blockSize := by
  induction blockIds with
  | nil => exact (zero_mul blockSize).symm
  | cons blockId blockIds ih =>
    rw [slotsOf, flatMap_cons, length_append, length_map, length_range,
      length_cons, succ_mul, add_comm]
    exact congrArg (· + blockSize) ih

theorem getElem?_slotsOf {blockSize i : ℕ} {blockIds : List ℕ} (hpos : 0 < blockSize)
    (h : i < blockIds.length * blockSize) :
    ∃ blockId, blockIds[i / blockSize]? = some blockId ∧
      (slotsOf blockSize blockIds)[i]? = some (blockId * blockSize + i % blockSize) := by
  induction blockIds generalizing i with
  | nil => exact absurd h (by rw [length_nil, zero_mul]; exact not_lt_zero i)
  | cons first blockIds ih =>
    have hlength : ((range blockSize).map fun offset => offset + first * blockSize).length =
        blockSize := by rw [length_map, length_range]
    rw [slotsOf, flatMap_cons]
    by_cases hi : i < blockSize
    · refine ⟨first, by rw [div_eq_of_lt hi]; rfl, ?_⟩
      rw [getElem?_append_left (by rwa [hlength]), getElem?_map,
        getElem?_range hi, mod_eq_of_lt hi, Option.map_some, add_comm]
    · have hge := Nat.le_of_not_lt hi
      rw [length_cons, succ_mul] at h
      obtain ⟨blockId, hblock, hslot⟩ := ih (i := i - blockSize) (by omega)
      refine ⟨blockId, ?_, ?_⟩
      · rw [div_eq_sub_div hpos hge, getElem?_cons_succ, hblock]
      · rw [getElem?_append_right (by rwa [hlength]), hlength, mod_eq_sub_mod hge]
        exact hslot

namespace ReqMeta

def Stores (config : SaveConfig) (reqMeta : ReqMeta) (k : ℕ) : Prop :=
  ∃ spec, reqMeta.saveSpec = some spec ∧ spec.canSave = true ∧
    spec.skipLeadingTokens / config.chunkSize * config.chunkSize ≤ k * config.chunkSize ∧
    (k + 1) * config.chunkSize ≤ reqMeta.tokenIds.length

def MapsTo (config : SaveConfig) (reqMeta : ReqMeta) (blockIds : List ℕ) : Prop :=
  reqMeta.slotMapping.length = reqMeta.tokenIds.length ∧
    ∀ i < reqMeta.tokenIds.length, ∃ blockId, blockIds[i / config.blockSize]? = some blockId ∧
      reqMeta.slotMapping[i]? = some (blockId * config.blockSize + i % config.blockSize)

variable {config : SaveConfig} {tracker next : RequestTracker} {loadSpec : Option LoadSpec}
  {reqMeta : Option ReqMeta}

theorem mapsTo_of_slotsOf {reqMeta : ReqMeta} {blockIds : List ℕ}
    (h : reqMeta.slotMapping = (slotsOf config.blockSize blockIds).take reqMeta.tokenIds.length)
    (hblocks : reqMeta.tokenIds.length ≤ blockIds.length * config.blockSize) :
    reqMeta.MapsTo config blockIds := by
  refine ⟨by rw [h, length_take, length_slotsOf, min_eq_left hblocks], fun i hi => ?_⟩
  obtain ⟨blockId, hblock, hslot⟩ := getElem?_slotsOf config.blockSizePos (hi.trans_le hblocks)
  exact ⟨blockId, hblock, by rw [h, getElem?_take_of_lt hi, hslot]⟩

structure Made (config : SaveConfig) (tracker : RequestTracker) (reqMeta : Option ReqMeta)
    (next : RequestTracker) : Prop where
  tokenIds : next.tokenIds = tracker.tokenIds
  allocatedBlockIds : next.allocatedBlockIds = tracker.allocatedBlockIds
  mmFeatures : next.mmFeatures = tracker.mmFeatures
  saved : ∀ k, (k + 1) * config.chunkSize ≤ next.numSavedTokens →
    (k + 1) * config.chunkSize ≤ tracker.numSavedTokens ∨
      ∃ made, reqMeta = some made ∧ made.Stores config k
  tokens : ∀ made, reqMeta = some made → made.tokenIds =
    applyMmHashesToTokenIds (tracker.tokenIds.take made.tokenIds.length) tracker.mmFeatures
  slots : ∀ made, reqMeta = some made → made.slotMapping =
    (slotsOf config.blockSize tracker.allocatedBlockIds).take made.tokenIds.length
  length : ∀ made, reqMeta = some made → made.tokenIds.length ≤ tracker.tokenIds.length

theorem numTokensToSave_le (tracker : RequestTracker) :
    tracker.numTokensToSave config ≤ tracker.tokenIds.length := by
  rw [RequestTracker.numTokensToSave]
  split_ifs
  · exact div_mul_le_self _ _
  · exact le_rfl

theorem stores_of_lt {saved k : ℕ} {made : ReqMeta} (hspec : made.saveSpec = some ⟨saved, true⟩)
    (hsaved : saved < (k + 1) * config.chunkSize)
    (hlength : (k + 1) * config.chunkSize ≤ made.tokenIds.length) : made.Stores config k :=
  ⟨_, hspec, rfl, mul_le_mul_right _
    (le_of_lt_succ ((div_lt_iff_lt_mul config.chunkSizePos).mpr hsaved)), hlength⟩

theorem made_fromRequestTracker (config : SaveConfig) (tracker : RequestTracker)
    (loadSpec : Option LoadSpec) :
    Made config tracker (fromRequestTracker config tracker loadSpec).1
      (fromRequestTracker config tracker loadSpec).2 := by
  have hle : tracker.numTokensToSave config ≤ tracker.tokenIds.length := numTokensToSave_le tracker
  have hlength : (applyMmHashesToTokenIds (tracker.tokenIds.take (tracker.numTokensToSave config))
      tracker.mmFeatures).length = tracker.numTokensToSave config := by
    rw [length_applyMmHashes, length_take, min_eq_left hle]
  rw [fromRequestTracker]
  dsimp only
  by_cases hskip : tracker.skipsSave config = true
  · by_cases hload : loadSpec.isNone = true
    · rw [if_pos (by rw [hskip, hload]; rfl)]
      refine ⟨rfl, rfl, rfl, fun k hk => .inl hk, ?_, ?_, ?_⟩
      all_goals
        intro made hmade
        cases hmade
    · rw [if_neg (by rw [Bool.and_eq_true]; exact fun h => hload h.2), if_pos hskip]
      refine ⟨rfl, rfl, rfl, fun k hk => .inl hk, ?_, ?_, ?_⟩
      all_goals
        intro made hmade
        rw [← Option.some.inj hmade]
      · rw [hlength]
      · exact hlength.trans_le hle
  · rw [if_neg (by rw [Bool.and_eq_true]; exact fun h => hskip h.1), if_neg hskip]
    refine ⟨rfl, rfl, rfl, fun k hk => ?_, ?_, ?_, ?_⟩
    · rcases lt_or_ge tracker.numSavedTokens ((k + 1) * config.chunkSize) with hlt | hge
      · refine .inr ⟨_, rfl, stores_of_lt ?_ hlt (hk.trans_eq hlength.symm)⟩
        rw [Bool.not_eq_true] at hskip
        rw [hskip]
        rfl
      · exact .inl hge
    all_goals
      intro made hmade
      rw [← Option.some.inj hmade]
    · rw [hlength]
    · exact hlength.trans_le hle

end ReqMeta

structure RequestTracker.Caught (tracker : RequestTracker) (request : VllmRequest)
    (blockIds : List ℕ) (n : ℕ) : Prop where
  tokenIds : tracker.tokenIds = request.allTokenIds.take (request.numComputedTokens + n)
  allocatedBlockIds : tracker.allocatedBlockIds = blockIds
  mmFeatures : tracker.mmFeatures = request.mmFeatures

structure RequestTracker.Follows (config : SaveConfig) (tracker : RequestTracker)
    (request : VllmRequest) (blockIds : List ℕ) : Prop where
  tokenIds : tracker.tokenIds = request.allTokenIds.take tracker.tokenIds.length
  computed : request.numComputedTokens ≤ tracker.tokenIds.length
  slots : tracker.tokenIds.length ≤ blockIds.length * config.blockSize
  allocatedBlockIds : tracker.allocatedBlockIds = blockIds
  mmFeatures : tracker.mmFeatures = request.mmFeatures

namespace RequestTracker

variable {tracker : RequestTracker} {request : VllmRequest} {blockIds : List ℕ} {n : ℕ}

theorem update_running (tracker : RequestTracker) (newTokenIds newBlockIds : List ℕ)
    (lmcacheCachedTokens vllmCachedTokens : ℕ) :
    let next := tracker.update newTokenIds newBlockIds none lmcacheCachedTokens vllmCachedTokens
    next.tokenIds = tracker.tokenIds ++ newTokenIds ∧
      next.allocatedBlockIds = tracker.allocatedBlockIds ++ newBlockIds ∧
      next.numSavedTokens = tracker.numSavedTokens ∧ next.mmFeatures = tracker.mmFeatures := by
  dsimp only [update]
  split_ifs <;> exact ⟨rfl, rfl, rfl, rfl⟩

theorem update_resumed (tracker : RequestTracker) (newTokenIds newBlockIds allTokenIds : List ℕ)
    (lmcacheCachedTokens vllmCachedTokens : ℕ) :
    let next := tracker.update newTokenIds newBlockIds (some allTokenIds) lmcacheCachedTokens
      vllmCachedTokens
    next.tokenIds = allTokenIds.take (max
        (max lmcacheCachedTokens vllmCachedTokens + newTokenIds.length) lmcacheCachedTokens) ∧
      next.allocatedBlockIds = newBlockIds ∧ next.numSavedTokens = lmcacheCachedTokens ∧
      next.mmFeatures = tracker.mmFeatures := by
  dsimp only [update]
  split_ifs <;> exact ⟨rfl, rfl, rfl, rfl⟩

theorem rolledBack_spec {I : Type} (config : SchedulerConfig I)
    (h : tracker.Follows config.toSaveConfig request blockIds) :
    let next := SchedulerConnector.rolledBack config tracker request
    next.tokenIds = request.allTokenIds.take request.numComputedTokens ∧
      next.allocatedBlockIds = tracker.allocatedBlockIds ∧
      next.numSavedTokens ≤ tracker.numSavedTokens ∧ next.mmFeatures = tracker.mmFeatures := by
  have hslots := h.slots
  rw [← h.allocatedBlockIds] at hslots
  dsimp only [SchedulerConnector.rolledBack]
  by_cases hahead : request.numComputedTokens < tracker.tokenIds.length
  · rw [if_pos hahead, if_neg (not_lt.mpr (hahead.le.trans hslots))]
    exact ⟨rfl, rfl, min_le_left _ _, rfl⟩
  · rw [if_neg hahead]
    have heq : request.numComputedTokens = tracker.tokenIds.length :=
      Nat.le_antisymm h.computed (Nat.le_of_not_lt hahead)
    exact ⟨by rw [heq]; exact h.tokenIds, rfl, le_rfl, rfl⟩

theorem caught_of_running {current : RequestTracker} {newBlockIds newTokenIds : List ℕ}
    (htokens : current.tokenIds = request.allTokenIds.take request.numComputedTokens)
    (hblocks : current.allocatedBlockIds ++ newBlockIds = blockIds)
    (hmm : current.mmFeatures = request.mmFeatures)
    (hnew : newTokenIds = (request.allTokenIds.drop request.numComputedTokens).take n)
    (lmcacheCachedTokens vllmCachedTokens : ℕ) :
    (current.update newTokenIds newBlockIds none lmcacheCachedTokens vllmCachedTokens).Caught
      request blockIds n := by
  obtain ⟨htokens', hblocks', _, hmm'⟩ := update_running current newTokenIds newBlockIds
    lmcacheCachedTokens vllmCachedTokens
  exact ⟨by rw [htokens', htokens, hnew, take_add], hblocks'.trans hblocks, hmm'.trans hmm⟩

theorem caught_of_resumed {newTokenIds : List ℕ} {lmcacheCachedTokens vllmCachedTokens : ℕ}
    (hmm : tracker.mmFeatures = request.mmFeatures)
    (hnew : newTokenIds = (request.allTokenIds.drop request.numComputedTokens).take n)
    (hn : request.numComputedTokens + n ≤ request.numTokens)
    (hfits : request.numComputedTokens = max lmcacheCachedTokens vllmCachedTokens ∨
      request.numComputedTokens ≤ max lmcacheCachedTokens vllmCachedTokens ∧
        request.numComputedTokens + n = request.numTokens) :
    (tracker.update newTokenIds blockIds (some request.allTokenIds) lmcacheCachedTokens
      vllmCachedTokens).Caught request blockIds n := by
  obtain ⟨htokens', hblocks', _, hmm'⟩ := update_resumed tracker newTokenIds blockIds
    request.allTokenIds lmcacheCachedTokens vllmCachedTokens
  have hlength : newTokenIds.length = n := by
    rw [VllmRequest.numTokens] at hn
    rw [hnew, length_take, length_drop]
    omega
  refine ⟨htokens'.trans ?_, hblocks', hmm'.trans hmm⟩
  rw [hlength]
  rcases hfits with heq | ⟨hle, hend⟩
  · rw [← heq, max_eq_left (by omega)]
  · rw [VllmRequest.numTokens] at hend
    rw [take_of_length_le (by omega), take_of_length_le hend.ge]

end RequestTracker

namespace SchedulerConfig

variable {I : Type} {config : SchedulerConfig I} {request : VllmRequest}
  {numComputedTokens hit n : ℕ}

theorem matchedTokens_cases (config : SchedulerConfig I) (request : VllmRequest)
    (numComputedTokens hit : ℕ) :
    let need := needToAllocate request numComputedTokens hit
    config.matchedTokens request numComputedTokens hit = 0 ∧
        0 < config.minRetrieveTokens ∧ need < config.minRetrieveTokens ∨
      config.matchedTokens request numComputedTokens hit = need.toNat ∧
        (config.minRetrieveTokens ≤ 0 ∨ config.minRetrieveTokens ≤ need) := by
  dsimp only [matchedTokens]
  split_ifs with hbelow
  · rw [belowMinRetrieve, Bool.and_eq_true, decide_eq_true_eq, decide_eq_true_eq] at hbelow
    exact .inl ⟨rfl, hbelow⟩
  · rw [belowMinRetrieve, Bool.and_eq_true, decide_eq_true_eq, decide_eq_true_eq, not_and_or]
      at hbelow
    exact .inr ⟨rfl, hbelow.imp Int.not_lt.mp Int.not_lt.mp⟩

theorem matchedTokens_eq (h : config.matchedTokens request numComputedTokens hit ≠ 0) :
    (config.matchedTokens request numComputedTokens hit : ℤ) =
      (hit : ℤ) - numComputedTokens - (if hit = request.numTokens then 1 else 0) := by
  rcases matchedTokens_cases config request numComputedTokens hit with ⟨hzero, _⟩ | ⟨heq, _⟩
  · exact absurd hzero h
  · rw [heq] at h ⊢
    exact Int.toNat_of_nonneg (by omega)

def Recovers (config : SchedulerConfig I) (request : VllmRequest) (numComputedTokens hit n : ℕ) :
    Prop :=
  hit ≤ numComputedTokens ∨
    if config.cachedReqsAreList then
      config.minRetrieveTokens ≤ 0 ∨
        config.minRetrieveTokens ≤ needToAllocate request numComputedTokens hit ∨
        numComputedTokens + n = request.numTokens
    else hit ≠ request.numTokens ∧
      (config.minRetrieveTokens ≤ 0 ∨ config.minRetrieveTokens ≤ (hit : ℤ) - numComputedTokens)

instance (config : SchedulerConfig I) (request : VllmRequest) (numComputedTokens hit n : ℕ) :
    Decidable (config.Recovers request numComputedTokens hit n) :=
  inferInstanceAs (Decidable (_ ∨ if config.cachedReqsAreList = true then _ ∨ _ ∨ _ else _ ∧ _))

theorem computed_of_recovers (h : config.Recovers request numComputedTokens hit n) (hn : 0 < n)
    (hle : numComputedTokens + config.matchedTokens request numComputedTokens hit + n ≤
      request.numTokens) :
    let computed := numComputedTokens + config.matchedTokens request numComputedTokens hit
    computed = max hit numComputedTokens ∨ config.cachedReqsAreList = true ∧
      computed ≤ max hit numComputedTokens ∧ computed + n = request.numTokens := by
  have hneed : needToAllocate request numComputedTokens hit =
      (hit : ℤ) - numComputedTokens - if hit = request.numTokens then 1 else 0 := rfl
  have hcases := matchedTokens_cases config request numComputedTokens hit
  dsimp only at hcases ⊢
  rw [Recovers] at h
  generalize needToAllocate request numComputedTokens hit = need at *
  generalize config.matchedTokens request numComputedTokens hit = matched at *
  by_cases hlist : config.cachedReqsAreList = true
  · rw [if_pos hlist] at h
    have hor : numComputedTokens + matched = max hit numComputedTokens ∨
        numComputedTokens + matched ≤ max hit numComputedTokens ∧
          numComputedTokens + matched + n = request.numTokens := by
      split_ifs at hneed <;> omega
    exact hor.imp_right fun hend => ⟨hlist, hend⟩
  · rw [if_neg hlist] at h
    left
    split_ifs at hneed <;> omega

end SchedulerConfig

namespace SchedulerConfig

theorem numExternalHitTokens_le {I : Type} (config : SchedulerConfig I) (request : VllmRequest)
    (numComputedTokens hit : ℕ) :
    config.numExternalHitTokens request numComputedTokens hit ≤ hit := by
  rw [numExternalHitTokens]
  split_ifs with hcap
  · simp only [Bool.and_eq_true, decide_eq_true_eq] at hcap
    have hle := div_mul_le_self (request.numTokens - config.chunkSize) config.chunkSize
    omega
  · exact le_rfl

end SchedulerConfig

namespace SchedulerConnector

variable {I : Type} [DecidableEq I] (config : SchedulerConfig I) (c : SchedulerConnector I)
  (reqId : I) (request : VllmRequest) (numComputedTokens : ℕ) (cached : CachedLookup)
  (lookup : List ℕ → Option ℕ)

def reportedHit : Option ℕ :=
  if config.skipsLookup reqId then none else lookupHit config request cached lookup

theorem notePriority_frame :
    (c.notePriority reqId request cached).loadSpecs = c.loadSpecs ∧
      (c.notePriority reqId request cached).requestTrackers = c.requestTrackers ∧
        (c.notePriority reqId request cached).unfinishedRequests = c.unfinishedRequests := by
  cases cached <;> exact ⟨rfl, rfl, rfl⟩

theorem getNumNewMatchedTokens_frame :
    let called := c.getNumNewMatchedTokens config reqId request numComputedTokens cached lookup
    called.2.requestTrackers = c.requestTrackers ∧
      called.2.unfinishedRequests = c.unfinishedRequests ∧
        ∀ id ≠ reqId, called.2.loadSpecs.get? id = c.loadSpecs.get? id := by
  obtain ⟨hspecs, htrackers, hunfinished⟩ := c.notePriority_frame reqId request cached
  dsimp only [getNumNewMatchedTokens]
  split_ifs
  · exact ⟨rfl, rfl, fun _ _ => rfl⟩
  · split
    · exact ⟨htrackers, hunfinished, fun id _ => by rw [hspecs]⟩
    · refine ⟨htrackers, hunfinished, fun id hne => ?_⟩
      rw [Dict.get?_set_ne _ _ (Ne.symm hne), hspecs]

theorem getNumNewMatchedTokens_cases :
    let called := c.getNumNewMatchedTokens config reqId request numComputedTokens cached lookup
    called.2.loadSpecs = c.loadSpecs ∧
        (called.1 = none ∨ called.1 = some 0 ∧ config.skipsLookup reqId = true) ∨
      ∃ hit, reportedHit config reqId request cached lookup = some hit ∧
        config.skipsLookup reqId = false ∧
        called.1 = some (config.matchedTokens request numComputedTokens
          (config.numExternalHitTokens request numComputedTokens hit)) ∧
        called.2.loadSpecs.get? reqId = some ⟨numComputedTokens,
          config.numExternalHitTokens request numComputedTokens hit, false⟩ := by
  obtain ⟨hspecs, _⟩ := c.notePriority_frame reqId request cached
  dsimp only [getNumNewMatchedTokens, reportedHit]
  cases hskip : config.skipsLookup reqId with
  | true => exact .inl ⟨rfl, .inr ⟨rfl, rfl⟩⟩
  | false =>
    rw [if_neg (by exact Bool.false_ne_true), if_neg (by exact Bool.false_ne_true)]
    cases hhit : lookupHit config request cached lookup with
    | none => exact .inl ⟨hspecs, .inl rfl⟩
    | some hit => exact .inr ⟨hit, rfl, rfl, rfl, Dict.get?_set_self _ _ _⟩

theorem updateStateAfterAlloc_spec {c : SchedulerConnector I} {reqId : I} {request : VllmRequest}
    {numExternalTokens : ℕ}
    (h : ∀ spec, c.loadSpecs.get? reqId = some spec → numExternalTokens ≠ 0 →
      (numExternalTokens : ℤ) = (spec.lmcacheCachedTokens : ℤ) - spec.vllmCachedTokens -
        (if spec.lmcacheCachedTokens = request.numTokens then 1 else 0)) :
    ∃ c', c.updateStateAfterAlloc reqId request numExternalTokens = .ok c' ∧
      c'.requestTrackers = c.requestTrackers ∧
      c'.unfinishedRequests = insert reqId c.unfinishedRequests ∧
      (∀ id ≠ reqId, c'.loadSpecs.get? id = c.loadSpecs.get? id) ∧
      ∃ canLoad, c'.loadSpecs.get? reqId =
        (c.loadSpecs.get? reqId).map fun spec => { spec with canLoad } := by
  rw [updateStateAfterAlloc]
  dsimp only
  cases hspec : c.loadSpecs.get? reqId with
  | none => exact ⟨_, rfl, rfl, rfl, fun _ _ => rfl, false, hspec⟩
  | some spec =>
    dsimp only
    by_cases hzero : numExternalTokens = 0
    · rw [if_pos hzero]
      exact ⟨_, rfl, rfl, rfl, fun id hne => Dict.get?_set_ne _ _ (Ne.symm hne), false,
        Dict.get?_set_self _ _ _⟩
    · rw [if_neg hzero, if_pos (h spec hspec hzero)]
      exact ⟨_, rfl, rfl, rfl, fun id hne => Dict.get?_set_ne _ _ (Ne.symm hne), true,
        Dict.get?_set_self _ _ _⟩

end SchedulerConnector

end LMCache
