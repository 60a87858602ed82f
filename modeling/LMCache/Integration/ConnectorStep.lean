import Mathlib.Data.Finset.Basic

namespace LMCache

structure LoadSpec where
  vllmCachedTokens : ℕ
  lmcacheCachedTokens : ℕ
  canLoad : Bool
deriving DecidableEq, Repr

structure SaveSpec where
  skipLeadingTokens : ℕ
  canSave : Bool
deriving DecidableEq, Repr

structure DisaggSpec where
  isLastPrefill : Bool
  numTransferredTokens : ℕ
deriving DecidableEq, Repr

structure MMFeature where
  value : ℕ
  offset : ℕ
  length : ℕ
deriving DecidableEq, Repr

structure NewRequestData where
  promptTokenIds : List ℕ
  blockIds : List ℕ
  numComputedTokens : ℕ
  mmFeatures : List MMFeature
  requestSkip : Bool
deriving DecidableEq, Repr

structure RequestTracker where
  promptLen : ℕ
  tokenIds : List ℕ
  allocatedBlockIds : List ℕ
  numSavedTokens : ℕ
  disaggSpec : Option DisaggSpec
  mmFeatures : List MMFeature
  requestSkip : Bool
  isDecodePhase : Bool
  skipSave : Bool
  numLmcacheCachedTokens : ℕ
deriving DecidableEq, Repr

structure ReqMeta where
  tokenIds : List ℕ
  slotMapping : List ℕ
  isLastPrefill : Bool
  saveSpec : Option SaveSpec
  loadSpec : Option LoadSpec
  disaggSpec : Option DisaggSpec
deriving DecidableEq, Repr

def cdiv (a b : ℕ) : ℕ := (a + b - 1) / b

def applyMmHash (tokenIds : List ℕ) (feature : MMFeature) : List ℕ :=
  if tokenIds.length ≤ feature.offset then tokenIds
  else
    let stop := min (feature.offset + feature.length) tokenIds.length
    tokenIds.take feature.offset ++ List.replicate (stop - feature.offset) feature.value ++
      tokenIds.drop stop

def applyMmHashesToTokenIds (tokenIds : List ℕ) (features : List MMFeature) : List ℕ :=
  features.foldl applyMmHash tokenIds

namespace RequestTracker

def fromNewRequest (newRequest : NewRequestData) (disaggSpec : Option DisaggSpec)
    (numTokensToCompute lmcacheCachedTokens : ℕ) (skipSave : Bool) : RequestTracker where
  promptLen := newRequest.promptTokenIds.length
  tokenIds := newRequest.promptTokenIds.take numTokensToCompute
  allocatedBlockIds := newRequest.blockIds
  numSavedTokens := lmcacheCachedTokens
  disaggSpec := disaggSpec
  mmFeatures := newRequest.mmFeatures
  requestSkip := newRequest.requestSkip
  isDecodePhase := false
  skipSave := skipSave
  numLmcacheCachedTokens := lmcacheCachedTokens

def update (tracker : RequestTracker) (newTokenIds newBlockIds : List ℕ)
    (allTokenIds : Option (List ℕ)) (lmcacheCachedTokens vllmCachedTokens : ℕ) : RequestTracker :=
  let tracker := match allTokenIds with
    | some allTokenIds =>
        let numComputedTokens := max lmcacheCachedTokens vllmCachedTokens
        let numTokensNeeded := max (numComputedTokens + newTokenIds.length) lmcacheCachedTokens
        { tracker with
          allocatedBlockIds := newBlockIds
          numSavedTokens := lmcacheCachedTokens
          tokenIds := allTokenIds.take numTokensNeeded }
    | none =>
        { tracker with
          allocatedBlockIds := tracker.allocatedBlockIds ++ newBlockIds
          tokenIds := tracker.tokenIds ++ newTokenIds }
  if newTokenIds.length = 1 then { tracker with isDecodePhase := true } else tracker

end RequestTracker

structure SaveConfig where
  blockSize : ℕ
  chunkSize : ℕ
  discardPartialChunks : Bool
  saveDecodeCache : Bool
  chunkSizePos : 0 < chunkSize
  blockSizePos : 0 < blockSize

def slotsOf (blockSize : ℕ) (blockIds : List ℕ) : List ℕ :=
  blockIds.flatMap fun blockId =>
    (List.range blockSize).map fun offset => offset + blockId * blockSize

namespace RequestTracker

variable (config : SaveConfig) (tracker : RequestTracker)

def isLastPrefill : Bool :=
  decide (tracker.promptLen ≤ tracker.tokenIds.length)

def chunkBoundary : ℕ :=
  cdiv (tracker.numSavedTokens + 1) config.chunkSize * config.chunkSize

def skipsSave : Bool :=
  tracker.disaggSpec.isNone &&
    (tracker.skipSave ||
      (decide (0 < tracker.numSavedTokens) &&
        decide (tracker.tokenIds.length < tracker.chunkBoundary config)) ||
      (tracker.isDecodePhase && !config.saveDecodeCache) || tracker.requestSkip)

def numTokensToSave : ℕ :=
  if !tracker.isLastPrefill || config.discardPartialChunks then
    tracker.tokenIds.length / config.chunkSize * config.chunkSize
  else tracker.tokenIds.length

end RequestTracker

def ReqMeta.fromRequestTracker (config : SaveConfig) (tracker : RequestTracker)
    (loadSpec : Option LoadSpec) : Option ReqMeta × RequestTracker :=
  let skipSave := tracker.skipsSave config
  if skipSave && loadSpec.isNone then (none, tracker)
  else
    let numTokensToSave := tracker.numTokensToSave config
    let tokenIds := applyMmHashesToTokenIds (tracker.tokenIds.take numTokensToSave)
      tracker.mmFeatures
    (some
      { tokenIds := tokenIds
        slotMapping := (slotsOf config.blockSize tracker.allocatedBlockIds).take tokenIds.length
        isLastPrefill := tracker.isLastPrefill
        saveSpec := some ⟨tracker.numSavedTokens, !skipSave⟩
        loadSpec := loadSpec
        disaggSpec := tracker.disaggSpec },
      if skipSave then tracker else { tracker with numSavedTokens := numTokensToSave })

theorem length_applyMmHash (tokenIds : List ℕ) (feature : MMFeature) :
    (applyMmHash tokenIds feature).length = tokenIds.length := by
  rw [applyMmHash]
  split_ifs with h
  · rfl
  · simp only [List.length_append, List.length_take, List.length_replicate, List.length_drop]
    omega

theorem length_applyMmHashes (tokenIds : List ℕ) (features : List MMFeature) :
    (applyMmHashesToTokenIds tokenIds features).length = tokenIds.length := by
  induction features generalizing tokenIds with
  | nil => rfl
  | cons feature features ih => exact (ih _).trans (length_applyMmHash tokenIds feature)

inductive KVRole where
  | producer
  | consumer
  | both
deriving DecidableEq, Repr

structure WorkerConfig where
  kvRole : KVRole
  blockSize : ℕ
  chunkSize : ℕ
  enableBlending : Bool
  isLastRank : Bool
  chunkSizePos : 0 < chunkSize

structure StoreCall where
  tokenIds : List ℕ
  mask : List Bool
  slotMapping : List ℕ
  offset : ℕ
  transferSpec : Option DisaggSpec
deriving DecidableEq, Repr

inductive StepError where
  | slotMappingMismatch
  | noSaveSpec
deriving DecidableEq, Repr

structure SavedRequest where
  call : Option StoreCall
  request : ReqMeta
deriving DecidableEq, Repr

namespace WorkerConfig

variable (config : WorkerConfig)

def alignDown (n : ℕ) : ℕ := n / config.chunkSize * config.chunkSize

def maskFrom (length skipped : ℕ) : List Bool :=
  (List.range length).map fun i => decide (skipped ≤ i)

def recordFailedBlocks (expectedMask retMask : List Bool) (slotMapping : List ℕ) : Finset ℕ :=
  if expectedMask.length = 0 then ∅
  else if retMask.length ≠ expectedMask.length then ∅
  else
    let missing := (List.range expectedMask.length).filter fun i =>
      expectedMask[i]? == some true && retMask[i]? == some false
    ((missing.filterMap fun i => slotMapping[i]?).map (· / config.blockSize)).toFinset

variable (request : ReqMeta)

def loads : Option LoadSpec := request.loadSpec.filter LoadSpec.canLoad

def loadRequest (retMask : List Bool) (request : ReqMeta) : Except StepError (Finset ℕ) :=
  match loads request with
  | none => .ok ∅
  | some loadSpec =>
      if request.tokenIds.length ≠ request.slotMapping.length then .error .slotMappingMismatch
      else
        let tokenMask := maskFrom request.tokenIds.length
          (config.alignDown loadSpec.vllmCachedTokens)
        let numExpectedTokens : ℤ := loadSpec.lmcacheCachedTokens - loadSpec.vllmCachedTokens
        if (retMask.count true : ℤ) < numExpectedTokens then
          .ok (config.recordFailedBlocks (tokenMask.take loadSpec.lmcacheCachedTokens) retMask
            (request.slotMapping.take loadSpec.lmcacheCachedTokens))
        else .ok ∅

def startLoadKv (invalidBlockIds : Finset ℕ) :
    List (ReqMeta × List Bool) → Except StepError (Finset ℕ)
  | [] => .ok invalidBlockIds
  | (request, retMask) :: rest => do
      let missingBlocks ← config.loadRequest retMask request
      startLoadKv (invalidBlockIds ∪ missingBlocks) rest

def getBlockIdsWithLoadErrors (invalidBlockIds : Finset ℕ) : Finset ℕ × Finset ℕ :=
  (invalidBlockIds, ∅)

def skipLeadingTokens (saveSpec : SaveSpec) (request : ReqMeta) : ℕ :=
  match config.kvRole, request.disaggSpec with
  | .producer, some disaggSpec => min saveSpec.skipLeadingTokens disaggSpec.numTransferredTokens
  | _, _ => saveSpec.skipLeadingTokens

def storeLen : ℕ :=
  if request.isLastPrefill || config.enableBlending then request.tokenIds.length
  else config.alignDown request.tokenIds.length

def maySave : Bool :=
  (request.saveSpec.map SaveSpec.canSave).getD false || config.kvRole = .producer

def storeRequest (saveSpec : SaveSpec) (request : ReqMeta) (skipped : ℕ) : SavedRequest :=
  let length := config.storeLen request
  let disaggSpec := if request.isLastPrefill then
      request.disaggSpec.map fun spec => { spec with isLastPrefill := true }
    else request.disaggSpec
  let tokenIds := request.tokenIds.take length
  { call := some
      { tokenIds := tokenIds
        mask := (maskFrom request.tokenIds.length skipped).take length
        slotMapping := request.slotMapping.take length
        offset := skipped
        transferSpec := disaggSpec }
    request :=
      if config.isLastRank then
        { request with
          saveSpec := some { saveSpec with skipLeadingTokens := tokenIds.length }
          disaggSpec := disaggSpec.map fun spec =>
            { spec with numTransferredTokens := tokenIds.length } }
      else { request with disaggSpec := disaggSpec } }

def saveRequest : Except StepError SavedRequest :=
  if !config.maySave request then .ok ⟨none, request⟩
  else if request.slotMapping.length ≠ request.tokenIds.length then .error .slotMappingMismatch
  else
    match request.saveSpec with
    | none => .error .noSaveSpec
    | some saveSpec =>
        let skipped := config.skipLeadingTokens saveSpec request
        if skipped = request.tokenIds.length then .ok ⟨none, request⟩
        else .ok (config.storeRequest saveSpec request (config.alignDown skipped))

def saveRequests : List ReqMeta → List SavedRequest × Option StepError
  | [] => ([], none)
  | request :: rest =>
      match config.saveRequest request with
      | .error error => ([], some error)
      | .ok saved => (saved :: (saveRequests rest).1, (saveRequests rest).2)

def waitForSave (requests : List ReqMeta) : List SavedRequest × Option StepError :=
  if config.kvRole = .consumer then ([], none) else config.saveRequests requests

end WorkerConfig

def StoreCall.chunks (chunkSize : ℕ) (call : StoreCall) : List (ℕ × ℕ) :=
  ((List.range (cdiv call.tokenIds.length chunkSize)).map fun i =>
    (i * chunkSize, min (i * chunkSize + chunkSize) call.tokenIds.length)).filter fun chunk =>
    call.mask[chunk.1]? == some true

end LMCache
