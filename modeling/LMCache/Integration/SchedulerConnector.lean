import LMCache.Foundations.Dict
import LMCache.Integration.ConnectorStep

namespace LMCache

inductive CachedLookup where
  | notCached
  | ongoing
  | hit (numTokens : ℕ)
deriving DecidableEq, Repr

structure VllmRequest where
  promptTokenIds : List ℕ
  allTokenIds : List ℕ
  numComputedTokens : ℕ
  mmFeatures : List MMFeature
  requestSkip : Bool
  priority : ℤ
  hasDisaggSpec : Bool
deriving DecidableEq, Repr

namespace VllmRequest

def numTokens (request : VllmRequest) : ℕ := request.allTokenIds.length

end VllmRequest

structure CachedRequest (I : Type) where
  reqId : I
  newTokenIds : List ℕ
  newBlockIds : List ℕ
  resumed : Bool

structure SchedulerOutput (I : Type) where
  finishedReqIds : List I
  scheduledNewReqs : List (I × NewRequestData)
  scheduledCachedReqs : List (CachedRequest I)
  numScheduledTokens : I → ℕ

structure SchedulerConfig (I : Type) extends SaveConfig where
  kvRole : KVRole
  supportsProducerReuse : Bool
  forceSkipSave : Bool
  priorityLimit : Option ℤ
  minRetrieveTokens : ℤ
  useLayerwise : Bool
  fullHitTailRecompute : Bool
  skipLastNTokens : ℕ
  mockReq : I → Bool
  cachedReqsAreList : Bool

structure SchedulerConnector (I : Type) where
  loadSpecs : Dict I LoadSpec
  requestTrackers : Dict I RequestTracker
  unfinishedRequests : Finset I
  requestsPriority : Dict I ℤ
  tmpDisaggTracker : Dict I DisaggSpec

inductive ConnectorError where
  | loadMismatch
  | noTracker
  | notUnfinished
  | noLoadSpec
  | computedMismatch
deriving DecidableEq, Repr

namespace SchedulerConfig

variable {I : Type} (config : SchedulerConfig I) (request : VllmRequest)

def skipsLookup (reqId : I) : Bool :=
  config.mockReq reqId || (decide (config.kvRole = .producer) && !config.supportsProducerReuse)

def lookupTokenIds : List ℕ :=
  let tokenIds := match request.mmFeatures with
    | [] => request.allTokenIds
    | features => applyMmHashesToTokenIds request.promptTokenIds features
  if 0 < config.skipLastNTokens then tokenIds.take (tokenIds.length - config.skipLastNTokens)
  else tokenIds

def numExternalHitTokens (numComputedTokens hit : ℕ) : ℕ :=
  if config.fullHitTailRecompute && config.useLayerwise && decide (numComputedTokens = 0) &&
      decide (hit = request.numTokens) && decide (config.chunkSize < request.numTokens) then
    (request.numTokens - config.chunkSize) / config.chunkSize * config.chunkSize
  else hit

def needToAllocate (numComputedTokens hit : ℕ) : ℤ :=
  (hit : ℤ) - numComputedTokens - if hit = request.numTokens then 1 else 0

def belowMinRetrieve (numComputedTokens hit : ℕ) : Bool :=
  decide (0 < config.minRetrieveTokens) &&
    decide (needToAllocate request numComputedTokens hit < config.minRetrieveTokens)

def matchedTokens (numComputedTokens hit : ℕ) : ℕ :=
  if config.belowMinRetrieve request numComputedTokens hit then 0
  else (needToAllocate request numComputedTokens hit).toNat

end SchedulerConfig

namespace SchedulerConnector

variable {I : Type} [DecidableEq I]

def init : SchedulerConnector I := ⟨.empty, .empty, ∅, .empty, .empty⟩

variable (config : SchedulerConfig I)

def lookupHit (request : VllmRequest) (cached : CachedLookup) (lookup : List ℕ → Option ℕ) :
    Option ℕ :=
  match cached with
  | .hit numTokens => some numTokens
  | .ongoing => none
  | .notCached => lookup (config.lookupTokenIds request)

variable (c : SchedulerConnector I)

def notePriority (reqId : I) (request : VllmRequest) (cached : CachedLookup) :
    SchedulerConnector I :=
  match cached with
  | .notCached => { c with requestsPriority := c.requestsPriority.set reqId request.priority }
  | _ => c

def getNumNewMatchedTokens (reqId : I) (request : VllmRequest) (numComputedTokens : ℕ)
    (cached : CachedLookup) (lookup : List ℕ → Option ℕ) : Option ℕ × SchedulerConnector I :=
  if config.skipsLookup reqId then (some 0, c)
  else
    let c := c.notePriority reqId request cached
    match lookupHit config request cached lookup with
    | none => (none, c)
    | some hit =>
        let numExternalHitTokens := config.numExternalHitTokens request numComputedTokens hit
        (some (config.matchedTokens request numComputedTokens numExternalHitTokens),
          { c with
            loadSpecs := c.loadSpecs.set reqId ⟨numComputedTokens, numExternalHitTokens, false⟩ })

def updateStateAfterAlloc (reqId : I) (request : VllmRequest) (numExternalTokens : ℕ) :
    Except ConnectorError (SchedulerConnector I) :=
  let c := { c with
    tmpDisaggTracker :=
      if request.hasDisaggSpec then c.tmpDisaggTracker.set reqId ⟨false, 0⟩ else c.tmpDisaggTracker
    unfinishedRequests := insert reqId c.unfinishedRequests }
  match c.loadSpecs.get? reqId with
  | none => .ok c
  | some spec =>
      if numExternalTokens = 0 then
        .ok { c with loadSpecs := c.loadSpecs.set reqId { spec with canLoad := false } }
      else if (numExternalTokens : ℤ) = (spec.lmcacheCachedTokens : ℤ) - spec.vllmCachedTokens -
          (if spec.lmcacheCachedTokens = request.numTokens then 1 else 0) then
        .ok { c with loadSpecs := c.loadSpecs.set reqId { spec with canLoad := true } }
      else .error .loadMismatch

def popFinished (finishedReqIds : List I) : SchedulerConnector I :=
  { c with
    requestTrackers := finishedReqIds.foldl Dict.erase c.requestTrackers
    unfinishedRequests := finishedReqIds.foldl Finset.erase c.unfinishedRequests }

def emit (reqId : I) (tracker : RequestTracker) (loadSpec : Option LoadSpec) :
    SchedulerConnector I × Option (I × ReqMeta) :=
  let (reqMeta, tracker) := ReqMeta.fromRequestTracker config.toSaveConfig tracker loadSpec
  ({ c with
      loadSpecs := c.loadSpecs.erase reqId
      requestTrackers := c.requestTrackers.set reqId tracker },
    reqMeta.map fun reqMeta => (reqId, reqMeta))

def skipSave (priority : ℤ) : Bool :=
  decide (config.kvRole = .consumer) || config.forceSkipSave ||
    match config.priorityLimit with
    | none => false
    | some limit => decide (limit < priority)

def lmcacheCached (loadSpec : Option LoadSpec) : ℕ :=
  (loadSpec.map LoadSpec.lmcacheCachedTokens).getD 0

def vllmCached (loadSpec : Option LoadSpec) : ℕ :=
  (loadSpec.map LoadSpec.vllmCachedTokens).getD 0

def newReq (numScheduledTokens : I → ℕ) (c : SchedulerConnector I) (entry : I × NewRequestData) :
    Except ConnectorError (SchedulerConnector I × Option (I × ReqMeta)) :=
  let (reqId, request) := entry
  if config.mockReq reqId then .ok (c, none)
  else
    let loadSpec := c.loadSpecs.get? reqId
    let tracker := RequestTracker.fromNewRequest request (c.tmpDisaggTracker.get? reqId)
      (request.numComputedTokens + numScheduledTokens reqId) (lmcacheCached loadSpec)
      (skipSave config ((c.requestsPriority.get? reqId).getD 0))
    .ok (emit config
      { c with
        requestsPriority := c.requestsPriority.erase reqId
        tmpDisaggTracker := c.tmpDisaggTracker.erase reqId }
      reqId tracker loadSpec)

variable (requests : I → Option VllmRequest)

def listReq (c : SchedulerConnector I) (entry : CachedRequest I) :
    Except ConnectorError (SchedulerConnector I × Option (I × ReqMeta)) :=
  let loadSpec := c.loadSpecs.get? entry.reqId
  match c.requestTrackers.get? entry.reqId with
  | none => .error .noTracker
  | some tracker =>
      let request := if entry.reqId ∈ c.unfinishedRequests then requests entry.reqId else none
      if entry.resumed && request.isNone then .error .notUnfinished
      else
        let allTokenIds := if entry.resumed then request.map VllmRequest.allTokenIds else none
        .ok (emit config c entry.reqId
          (tracker.update entry.newTokenIds entry.newBlockIds allTokenIds (lmcacheCached loadSpec)
            (vllmCached loadSpec)) loadSpec)

def rolledBack (tracker : RequestTracker) (request : VllmRequest) : RequestTracker :=
  let numCurrentTokens := request.numComputedTokens
  if numCurrentTokens < tracker.tokenIds.length then
    let numTokenSlots := tracker.allocatedBlockIds.length * config.blockSize
    let tokensToKeep := if numTokenSlots < numCurrentTokens then numTokenSlots else numCurrentTokens
    { tracker with
      tokenIds := request.allTokenIds.take tokensToKeep
      numSavedTokens := min tracker.numSavedTokens tokensToKeep }
  else tracker

def cachedReq (numScheduledTokens : I → ℕ) (c : SchedulerConnector I) (entry : CachedRequest I) :
    Except ConnectorError (SchedulerConnector I × Option (I × ReqMeta)) :=
  match c.requestTrackers.get? entry.reqId with
  | none => .error .noTracker
  | some tracker =>
      match if entry.reqId ∈ c.unfinishedRequests then requests entry.reqId else none with
      | none => .error .notUnfinished
      | some request =>
          let newTokenIds := (request.allTokenIds.drop request.numComputedTokens).take
            (numScheduledTokens entry.reqId)
          let loadSpec := c.loadSpecs.get? entry.reqId
          if entry.resumed && loadSpec.isNone then .error .noLoadSpec
          else if entry.resumed && !decide (request.numComputedTokens =
              max (lmcacheCached loadSpec) (vllmCached loadSpec)) then .error .computedMismatch
          else
            let allTokenIds := if entry.resumed then some request.allTokenIds else none
            .ok (emit config c entry.reqId
              ((rolledBack config tracker request).update newTokenIds entry.newBlockIds allTokenIds
                (lmcacheCached loadSpec) (vllmCached loadSpec)) loadSpec)

def collect {E : Type} (turn : SchedulerConnector I → E →
    Except ConnectorError (SchedulerConnector I × Option (I × ReqMeta))) :
    SchedulerConnector I → List E →
      Except ConnectorError (SchedulerConnector I × List (I × ReqMeta))
  | c, [] => .ok (c, [])
  | c, entry :: entries =>
      match turn c entry with
      | .error error => .error error
      | .ok (next, reqMeta) =>
          match collect turn next entries with
          | .error error => .error error
          | .ok (last, metas) => .ok (last, reqMeta.toList ++ metas)

def buildConnectorMeta (c : SchedulerConnector I) (output : SchedulerOutput I) :
    Except ConnectorError (SchedulerConnector I × List (I × ReqMeta)) :=
  match collect (newReq config output.numScheduledTokens) (c.popFinished output.finishedReqIds)
      output.scheduledNewReqs with
  | .error error => .error error
  | .ok (c, newMetas) =>
      let turn := if config.cachedReqsAreList then listReq config requests
        else cachedReq config requests output.numScheduledTokens
      match collect turn c output.scheduledCachedReqs with
      | .error error => .error error
      | .ok (c, cachedMetas) => .ok (c, newMetas ++ cachedMetas)

end SchedulerConnector

end LMCache
