import LMCache.Foundations.Execution
import LMCache.Integration.ConnectorTurns

namespace LMCache

open Function

inductive SchedulerEvent (I : Type) where
  | arrive (reqId : I) (request : VllmRequest)
  | allocate (reqId : I) (numLocalTokens : ℕ) (cached : CachedLookup) (lookup : List ℕ → Option ℕ)
      (blockIds : List ℕ) (numNewTokens : ℕ)
  | schedule (reqId : I) (newBlockIds : List ℕ) (numNewTokens : ℕ)
  | buildConnectorMeta
  | append (reqId : I) (tokenIds : List ℕ)
  | rollBack (reqId : I) (numComputedTokens : ℕ)
  | preempt (reqId : I)
  | finish (reqId : I)

-- the connector with the part of vLLM's scheduler that it follows; output is of the step that is
-- being scheduled, reported and emitted record the lookups and all metadata
structure SchedulerRun (I : Type) where
  connector : SchedulerConnector I
  requests : I → Option RequestState
  output : SchedulerOutput I
  arrived : Finset I
  raised : Bool
  reported : List (I × ℕ)
  emitted : List (I × ReqMeta)
  metas : List (I × ReqMeta)

namespace SchedulerRun

variable {I : Type} [DecidableEq I]

def emptyOutput : SchedulerOutput I := ⟨[], [], [], fun _ => 0⟩

def start : SchedulerRun I := ⟨.init, fun _ => none, emptyOutput, ∅, false, [], [], []⟩

def Scheduled (run : SchedulerRun I) (reqId : I) : Prop := 0 < run.output.numScheduledTokens reqId

instance (run : SchedulerRun I) (reqId : I) : Decidable (run.Scheduled reqId) :=
  inferInstanceAs (Decidable (0 < run.output.numScheduledTokens reqId))

variable (config : SchedulerConfig I) (run : SchedulerRun I)

def ask (reqId : I) (request : VllmRequest) (numLocalTokens : ℕ) (cached : CachedLookup)
    (lookup : List ℕ → Option ℕ) : SchedulerRun I :=
  { run with
    connector := (run.connector.getNumNewMatchedTokens config reqId request numLocalTokens cached
      lookup).2
    reported := run.reported ++
      (SchedulerConnector.reportedHit config reqId request cached lookup).toList.map
        fun hit => (reqId, hit) }

def grant (reqId : I) (state : RequestState) (next : RequestState) (numNewTokens : ℕ)
    (connector : SchedulerConnector I) : SchedulerRun I :=
  { run with
    connector := connector
    requests := update run.requests reqId (some next)
    output :=
      { run.output with
        numScheduledTokens := update run.output.numScheduledTokens reqId numNewTokens
        scheduledNewReqs :=
          if state.status = .waiting then
            run.output.scheduledNewReqs ++ [(reqId, next.newRequestData)]
          else run.output.scheduledNewReqs
        scheduledCachedReqs :=
          if state.status = .waiting then run.output.scheduledCachedReqs
          else run.output.scheduledCachedReqs ++
            [⟨reqId, (next.request.allTokenIds.drop next.request.numComputedTokens).take
              numNewTokens, next.blockIds, true⟩] } }

def granted (state : RequestState) (numComputedTokens : ℕ) (blockIds : List ℕ) : RequestState :=
  ⟨{ state.request with numComputedTokens }, .running, blockIds⟩

def allocate (reqId : I) (state : RequestState) (numLocalTokens : ℕ) (cached : CachedLookup)
    (lookup : List ℕ → Option ℕ) (blockIds : List ℕ) (numNewTokens : ℕ) : SchedulerRun I :=
  let asked := run.ask config reqId state.request numLocalTokens cached lookup
  match (run.connector.getNumNewMatchedTokens config reqId state.request numLocalTokens cached
      lookup).1 with
  | none => asked
  | some matched =>
      let next := granted state (numLocalTokens + matched) blockIds
      if 0 < numNewTokens ∧ SchedulerConnector.Granted config next numNewTokens then
        match asked.connector.updateStateAfterAlloc reqId state.request matched with
        | .error _ => { asked with raised := true }
        | .ok connector => asked.grant reqId state next numNewTokens connector
      else asked

def extended (state : RequestState) (newBlockIds : List ℕ) : RequestState :=
  { state with blockIds := state.blockIds ++ newBlockIds }

def schedule (reqId : I) (state : RequestState) (newBlockIds : List ℕ) (numNewTokens : ℕ) :
    SchedulerRun I :=
  { run with
    requests := update run.requests reqId (some (extended state newBlockIds))
    output :=
      { run.output with
        numScheduledTokens := update run.output.numScheduledTokens reqId numNewTokens
        scheduledCachedReqs := run.output.scheduledCachedReqs ++
          [⟨reqId, (state.request.allTokenIds.drop state.request.numComputedTokens).take
            numNewTokens, newBlockIds, false⟩] } }

def advanced (numScheduledTokens : ℕ) (state : RequestState) : RequestState :=
  { state with
    request := { state.request with
      numComputedTokens := state.request.numComputedTokens + numScheduledTokens } }

def build : SchedulerRun I :=
  match run.connector.buildConnectorMeta config
      (fun reqId => (run.requests reqId).map RequestState.request) run.output with
  | .error _ => { run with raised := true }
  | .ok (connector, metas) =>
      { run with
        connector := connector
        requests := fun reqId =>
          (run.requests reqId).map (advanced (run.output.numScheduledTokens reqId))
        output := emptyOutput
        emitted := run.emitted ++ metas
        metas := metas }

def alter (reqId : I) (change : RequestState → Option RequestState) : SchedulerRun I :=
  match run.requests reqId with
  | none => run
  | some state =>
      if run.Scheduled reqId then run
      else
        match change state with
        | none => run
        | some next => { run with requests := update run.requests reqId (some next) }

def appended (tokenIds : List ℕ) (state : RequestState) : Option RequestState :=
  if state.status = .waiting then none
  else some { state with
    request := { state.request with allTokenIds := state.request.allTokenIds ++ tokenIds } }

def rolledBack (numComputedTokens : ℕ) (state : RequestState) : Option RequestState :=
  if state.status = .running ∧ numComputedTokens ≤ state.request.numComputedTokens then
    some { state with request := { state.request with numComputedTokens } }
  else none

def preempted (state : RequestState) : Option RequestState :=
  if state.status = .running then
    some ⟨{ state.request with numComputedTokens := 0 }, .preempted, []⟩
  else none

def step : SchedulerEvent I → SchedulerRun I
  | .arrive reqId request =>
      if reqId ∈ run.arrived then run
      else
        { run with
          arrived := insert reqId run.arrived
          requests := update run.requests reqId (some
            ⟨{ request with allTokenIds := request.promptTokenIds, numComputedTokens := 0 },
              .waiting, []⟩) }
  | .allocate reqId numLocalTokens cached lookup blockIds numNewTokens =>
      match run.requests reqId with
      | none => run
      | some state =>
          if state.status = .running then run
          else run.allocate config reqId state numLocalTokens cached lookup blockIds numNewTokens
  | .schedule reqId newBlockIds numNewTokens =>
      match run.requests reqId with
      | none => run
      | some state =>
          if state.status = .running ∧ ¬ run.Scheduled reqId ∧ 0 < numNewTokens ∧
              SchedulerConnector.Granted config (extended state newBlockIds) numNewTokens then
            run.schedule reqId state newBlockIds numNewTokens
          else run
  | .buildConnectorMeta => run.build config
  | .append reqId tokenIds => run.alter reqId (appended tokenIds)
  | .rollBack reqId numComputedTokens => run.alter reqId (rolledBack numComputedTokens)
  | .preempt reqId => run.alter reqId preempted
  | .finish reqId =>
      match run.requests reqId with
      | none => run
      | some _ =>
          if run.Scheduled reqId then run
          else
            { run with
              requests := update run.requests reqId none
              output := { run.output with
                finishedReqIds := run.output.finishedReqIds ++ [reqId] } }

def exec (event : SchedulerEvent I) : SchedulerRun I :=
  if run.raised then run else run.step config event

def Resumable : SchedulerEvent I → Prop
  | .allocate reqId numLocalTokens cached lookup _ numNewTokens =>
      ∀ state, run.requests reqId = some state → state.status = .preempted → 0 < numNewTokens →
        if config.skipsLookup reqId = true then
          config.mockReq reqId = false ∧ config.cachedReqsAreList = true ∧ numLocalTokens = 0
        else ∀ hit, SchedulerConnector.lookupHit config state.request cached lookup = some hit →
          config.Recovers state.request numLocalTokens
            (config.numExternalHitTokens state.request numLocalTokens hit) numNewTokens
  | .schedule reqId _ _ =>
      config.mockReq reqId = false ∧
        (config.cachedReqsAreList = true → ∀ state, run.requests reqId = some state →
          ∀ tracker, run.connector.requestTrackers.get? reqId = some tracker →
            tracker.tokenIds.length = state.request.numComputedTokens)
  | _ => True

instance decidableForallSome {A : Type} (a : Option A) (P : A → Prop) [∀ x, Decidable (P x)] :
    Decidable (∀ x, a = some x → P x) :=
  match a with
  | none => .isTrue fun _ h => nomatch h
  | some x => decidable_of_iff (P x) ⟨fun h _ heq => Option.some.inj heq ▸ h, fun h => h x rfl⟩

instance (run : SchedulerRun I) : ∀ event, Decidable (Resumable config run event)
  | .allocate reqId _ _ _ _ numNewTokens =>
      inferInstanceAs (Decidable (∀ state, run.requests reqId = some state →
        state.status = .preempted → 0 < numNewTokens → ite _ _ _))
  | .schedule reqId _ _ =>
      inferInstanceAs (Decidable (_ ∧ (_ → ∀ state, run.requests reqId = some state →
        ∀ tracker, run.connector.requestTrackers.get? reqId = some tracker → _)))
  | .arrive _ _ | .buildConnectorMeta | .append _ _ | .rollBack _ _ | .preempt _ | .finish _ =>
      .isTrue trivial

structure FollowsVllm (run next : SchedulerRun I) : Prop where
  tokenIds : ∀ reqId state, run.requests reqId = some state → run.Scheduled reqId →
    config.mockReq reqId = false → ∃ tracker,
      next.connector.requestTrackers.get? reqId = some tracker ∧
        tracker.tokenIds = state.request.allTokenIds.take
          (state.request.numComputedTokens + run.output.numScheduledTokens reqId)
  slots : ∀ p ∈ next.metas, ∃ state, run.requests p.1 = some state ∧
    p.2.MapsTo config.toSaveConfig state.blockIds ∧
      p.2.tokenIds = applyMmHashesToTokenIds
        (state.request.allTokenIds.take p.2.tokenIds.length) state.request.mmFeatures

structure Follows (run : SchedulerRun I) (event : SchedulerEvent I) : Prop where
  notRaised : (exec config run event).raised = false
  built : event = .buildConnectorMeta → FollowsVllm config run (exec config run event)
  saved : SchedulerConnector.AllSaved config.toSaveConfig (exec config run event).reported
    (exec config run event).emitted (exec config run event).connector

end SchedulerRun

end LMCache
