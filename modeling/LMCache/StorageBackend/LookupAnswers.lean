import LMCache.EventManager
import LMCache.StorageBackend.ActiveBackends
import LMCache.Foundations.Execution

namespace LMCache

structure AsyncBackend (K : Type) where
  batchedAsyncContains : String → List K → Bool → ℕ
  hits_le : ∀ lookupId keys pin, batchedAsyncContains lookupId keys pin ≤ keys.length

inductive LoadOutcome (M : Type) where
  | returned (memObjs : List M)
  | raised
deriving DecidableEq

inductive CallbackError where
  | event (e : EventError)
  | loading
  | attribute
  | index
deriving DecidableEq

structure AsyncLookupState where
  eventManager : EventManager ℕ
  responses : List (String × ℕ)
  callbackErrors : List CallbackError

structure AsyncLookup (K M : Type) where
  lookupId : String
  cumChunkLengthsTotal : List ℕ
  loadingTaskKeys : List (List K)
  tierExpectedChunks : List ℕ
  outcomes : List (Option (LoadOutcome M))
  allDone : Bool
  state : AsyncLookupState

namespace LoadOutcome

variable {M : Type}

def memObjs : LoadOutcome M → List M
  | .returned memObjs => memObjs
  | .raised => []

def isRaised : LoadOutcome M → Bool
  | .returned _ => false
  | .raised => true

end LoadOutcome

variable {K M : Type}

def sendResponseToScheduler (st : AsyncLookupState) (lookupId : String) (length : ℕ) :
    AsyncLookupState :=
  { st with responses := st.responses ++ [(lookupId, length)] }

def releaseSubsequent (tiers : List (List (K × M))) : Except CallbackError Unit :=
  if tiers.all List.isEmpty then .ok () else .error .attribute

def countRetrieved : List (List (K × M)) → List ℕ → Except CallbackError ℕ
  | [], _ => .ok 0
  | _ :: _, [] => .error .index
  | tierResult :: rest, expectedChunks :: expected =>
      if tierResult.length < expectedChunks then
        (releaseSubsequent rest).map fun _ => tierResult.length
      else (countRetrieved rest expected).map fun n => tierResult.length + n

def prefetchAllDoneCallback (task : Except CallbackError (List (List (K × M)))) (lookupId : String)
    (cumChunkLengthsTotal tierExpectedChunks : List ℕ) (st : AsyncLookupState) :
    AsyncLookupState :=
  match st.eventManager.updateEventStatus lookupId .done with
  | .error e => { st with callbackErrors := st.callbackErrors ++ [.event e] }
  | .ok eventManager =>
      let st := { st with eventManager := eventManager }
      match task.bind (countRetrieved · tierExpectedChunks) with
      | .error e => { st with callbackErrors := st.callbackErrors ++ [e] }
      | .ok totalRetrievedChunks =>
          match cumChunkLengthsTotal[totalRetrievedChunks]? with
          | none => { st with callbackErrors := st.callbackErrors ++ [.index] }
          | some retrievedLength => sendResponseToScheduler st lookupId retrievedLength

namespace AsyncLookup

def lookupTiers (lookupId : String) (pin : Bool) (numTotalChunks : ℕ) :
    List (String × AsyncBackend K) → List K → ℕ → List (List K × ℕ)
  | [], _, _ => []
  | (_, backend) :: rest, keys, numTotalHitChunks =>
      let numHitChunks := backend.batchedAsyncContains lookupId keys pin
      if numHitChunks = 0 then lookupTiers lookupId pin numTotalChunks rest keys numTotalHitChunks
      else
        (keys.take numHitChunks, numHitChunks) ::
          if numTotalHitChunks + numHitChunks = numTotalChunks then []
          else lookupTiers lookupId pin numTotalChunks rest (keys.drop numHitChunks)
            (numTotalHitChunks + numHitChunks)

def asyncLookupAndPrefetch (table : BackendTable (AsyncBackend K)) (lookupId : String)
    (keys : List K) (cumChunkLengths : List ℕ) (searchRange : Option (List String)) (pin : Bool)
    (taskId : ℕ) (st : AsyncLookupState) : AsyncLookup K M :=
  let tiers := lookupTiers lookupId pin keys.length
    (table.getActiveStorageBackends none searchRange) keys 0
  { lookupId := lookupId
    cumChunkLengthsTotal := cumChunkLengths
    loadingTaskKeys := tiers.map Prod.fst
    tierExpectedChunks := tiers.map Prod.snd
    outcomes := List.replicate tiers.length none
    allDone := tiers.isEmpty
    state :=
      if tiers.isEmpty then sendResponseToScheduler st lookupId 0
      else { st with eventManager := st.eventManager.addEvent lookupId taskId } }

def memObjsOf (outcome : Option (LoadOutcome M)) : List M :=
  (outcome.map LoadOutcome.memObjs).getD []

def gather (outcomes : List (Option (LoadOutcome M))) :
    Option (Except CallbackError (List (List M))) :=
  if outcomes.any (fun o => (o.map LoadOutcome.isRaised).getD false) then some (.error .loading)
  else if outcomes.all Option.isSome then some (.ok (outcomes.map memObjsOf))
  else none

variable (run : AsyncLookup K M)

def gatherWithKeys : Option (Except CallbackError (List (List (K × M)))) :=
  (gather run.outcomes).map fun res => res.map fun loadingResults =>
    (run.loadingTaskKeys.zip loadingResults).map fun p => p.1.zip p.2

def settle : AsyncLookup K M :=
  match run.gatherWithKeys with
  | none => run
  | some task =>
      { run with
        allDone := true
        state := prefetchAllDoneCallback task run.lookupId run.cumChunkLengthsTotal
          run.tierExpectedChunks run.state }

def setOutcome (tierIdx : ℕ) (outcome : LoadOutcome M) : AsyncLookup K M :=
  { run with outcomes := run.outcomes.set tierIdx (some outcome) }

def finishTier (p : ℕ × LoadOutcome M) : AsyncLookup K M :=
  match run.outcomes[p.1]? with
  | some none =>
      if run.allDone then run.setOutcome p.1 p.2 else (run.setOutcome p.1 p.2).settle
  | _ => run

end AsyncLookup

end LMCache

namespace LMCache

variable {K M : Type}

def NothingAfterShort (tiers : List (List K × List M)) : Prop :=
  tiers.Pairwise fun p q => p.2.length < p.1.length → q.2 = []

def returnedObjs (tiers : List (List K × List M)) : List (Option M) :=
  tiers.flatMap fun p => (List.range p.1.length).map fun i => p.2[i]?

def leadingReturned (tiers : List (List K × List M)) : ℕ :=
  ((returnedObjs tiers).takeWhile Option.isSome).length

theorem length_returnedObjs (tiers : List (List K × List M)) :
    (returnedObjs tiers).length = (tiers.flatMap Prod.fst).length := by
  induction tiers with
  | nil => rfl
  | cons p tiers ih =>
    rw [returnedObjs, List.flatMap_cons, List.flatMap_cons, List.length_append, List.length_append,
      List.length_map, List.length_range, ← ih]
    rfl

theorem leadingReturned_le (tiers : List (List K × List M)) :
    leadingReturned tiers ≤ (tiers.flatMap Prod.fst).length := by
  rw [← length_returnedObjs]
  exact List.takeWhile_sublist _ |>.length_le

theorem takeWhile_getElem? (memObjs : List M) (n : ℕ) :
    ((List.range n).map fun i => memObjs[i]?).takeWhile Option.isSome =
      (List.range (min n memObjs.length)).map fun i => memObjs[i]? := by
  induction n with
  | zero => rfl
  | succ n ih =>
    rw [List.range_succ, List.map_append, List.takeWhile_append, ih]
    rcases Nat.lt_or_ge n memObjs.length with hlt | hge
    · have hlast : ([n].map fun i => memObjs[i]?).takeWhile Option.isSome = [memObjs[n]?] := by
        simp [List.getElem?_eq_getElem hlt]
      rw [if_pos (by simp; omega), hlast, Nat.min_eq_left hlt, List.range_succ, List.map_append]
      rfl
    · have hlast : ([n].map fun i => memObjs[i]?).takeWhile Option.isSome = [] := by
        simp [List.getElem?_eq_none hge]
      rw [hlast, List.append_nil, Nat.min_eq_right hge, Nat.min_eq_right (by omega)]
      split_ifs with hall
      · have hn : memObjs.length = n := by simpa using hall
        rw [hn]
      · rfl

theorem leadingReturned_cons (p : List K × List M) (tiers : List (List K × List M)) :
    leadingReturned (p :: tiers) =
      if p.2.length < p.1.length then p.2.length else p.1.length + leadingReturned tiers := by
  rw [leadingReturned, returnedObjs, List.flatMap_cons, List.takeWhile_append, takeWhile_getElem?]
  simp only [List.length_map, List.length_range]
  split_ifs with hall hshort hshort
  · omega
  · rw [List.length_append, List.length_map, List.length_range]
    rfl
  · rw [List.length_map, List.length_range]
    omega
  · omega

theorem countRetrieved_eq {tiers : List (List K × List M)} (hkeys : ∀ p ∈ tiers, p.1 ≠ []) :
    (NothingAfterShort tiers → countRetrieved (tiers.map fun p => p.1.zip p.2)
        (tiers.map fun p => p.1.length) = .ok (leadingReturned tiers)) ∧
      (¬ NothingAfterShort tiers → countRetrieved (tiers.map fun p => p.1.zip p.2)
        (tiers.map fun p => p.1.length) = .error .attribute) := by
  induction tiers with
  | nil => exact ⟨fun _ => rfl, fun h => absurd .nil h⟩
  | cons p tiers ih =>
    obtain ⟨hok, herror⟩ := ih fun q hq => hkeys q (List.mem_cons_of_mem _ hq)
    rw [List.map_cons, List.map_cons, countRetrieved, leadingReturned_cons, NothingAfterShort,
      List.pairwise_cons, List.length_zip]
    by_cases hshort : p.2.length < p.1.length
    · have hempty : (∀ q ∈ tiers, p.2.length < p.1.length → q.2 = []) ∧ NothingAfterShort tiers ↔
          (tiers.map fun q => q.1.zip q.2).all List.isEmpty = true := by
        rw [List.all_map, List.all_eq_true]
        constructor
        · intro h q hq
          simp [h.1 q hq hshort]
        · intro h
          have hall : ∀ q ∈ tiers, q.2 = [] := fun q hq => by
            have hzip : q.1 = [] ∨ q.2 = [] := by simpa using h q hq
            exact hzip.resolve_left (hkeys q (List.mem_cons_of_mem _ hq))
          refine ⟨fun q hq _ => hall q hq, List.pairwise_of_forall_mem_list ?_⟩
          exact fun _ _ q hq _ => hall q hq
      rw [if_pos (by omega), if_pos hshort, releaseSubsequent]
      refine ⟨fun h => ?_, fun h => ?_⟩
      · rw [if_pos (hempty.mp h), Nat.min_eq_right (Nat.le_of_lt hshort)]
        rfl
      · rw [if_neg fun hall => h (hempty.mpr hall)]
        rfl
    · rw [if_neg (by omega), if_neg hshort]
      refine ⟨fun h => ?_, fun h => ?_⟩
      · rw [hok h.2, Nat.min_eq_left (Nat.le_of_not_lt hshort)]
        rfl
      · rw [herror fun hrest => h ⟨fun _ _ hlt => absurd hlt hshort, hrest⟩]
        rfl

namespace AsyncLookup

theorem lookupTiers_spec (lookupId : String) (pin : Bool) (total : ℕ)
    (backends : List (String × AsyncBackend K)) (keys : List K) (hits : ℕ) :
    (lookupTiers lookupId pin total backends keys hits).flatMap Prod.fst <+: keys ∧
      ∀ tier ∈ lookupTiers lookupId pin total backends keys hits,
        tier.1 ≠ [] ∧ tier.2 = tier.1.length := by
  induction backends generalizing keys hits with
  | nil => exact ⟨List.nil_prefix, fun _ h => absurd h List.not_mem_nil⟩
  | cons p backends ih =>
    obtain ⟨name, backend⟩ := p
    have hle := backend.hits_le lookupId keys pin
    simp only [lookupTiers]
    split_ifs with hzero hall
    · exact ih keys hits
    · refine ⟨by simpa using List.take_prefix _ _, fun tier htier => ?_⟩
      obtain rfl := List.mem_singleton.mp htier
      refine ⟨fun hnil => ?_, (List.length_take_of_le hle).symm⟩
      have hlength := congrArg List.length hnil
      rw [List.length_take_of_le hle] at hlength
      exact hzero hlength
    · obtain ⟨⟨rest, hrest⟩, htiers⟩ := ih (keys.drop (backend.batchedAsyncContains lookupId keys pin))
        (hits + backend.batchedAsyncContains lookupId keys pin)
      refine ⟨⟨rest, ?_⟩, fun tier htier => ?_⟩
      · rw [List.flatMap_cons, List.append_assoc, hrest, List.take_append_drop]
      · rcases List.mem_cons.mp htier with rfl | htier
        · refine ⟨fun hnil => ?_, (List.length_take_of_le hle).symm⟩
          have hlength := congrArg List.length hnil
          rw [List.length_take_of_le hle] at hlength
          exact hzero hlength
        · exact htiers tier htier

variable {run : AsyncLookup K M}

def tiers (run : AsyncLookup K M) : List (List K × List M) :=
  run.loadingTaskKeys.zip (run.outcomes.map memObjsOf)

structure LoadsCleanly (run : AsyncLookup K M) : Prop where
  returned : ∀ outcome ∈ run.outcomes, outcome ≠ some .raised
  nothingAfterShort : NothingAfterShort run.tiers

def Answered (before : AsyncLookupState) (run : AsyncLookup K M) : Prop :=
  ∃ length, run.cumChunkLengthsTotal[leadingReturned run.tiers]? = some length ∧
    run.state.responses = before.responses ++ [(run.lookupId, length)]

theorem gather_set {outcomes : List (Option (LoadOutcome M))} {i : ℕ}
    {outcome : Option (LoadOutcome M)} {res : Except CallbackError (List (List M))}
    (hi : outcomes[i]? = some none) (h : gather outcomes = some res) :
    gather (outcomes.set i outcome) = some res := by
  have hnot : outcomes.all Option.isSome = false :=
    List.all_eq_false.mpr ⟨none, List.mem_of_getElem? hi, by simp⟩
  rw [gather, hnot] at h
  split_ifs at h with hraised hfalse
  · obtain ⟨raised, hmem, hvalue⟩ := List.any_eq_true.mp hraised
    obtain ⟨j, hj⟩ := List.mem_iff_getElem?.mp hmem
    have hne : i ≠ j := fun heq => by
      subst heq
      rw [← Option.some.inj (hi.symm.trans hj)] at hvalue
      exact absurd hvalue (by simp)
    have hstays : raised ∈ outcomes.set i outcome :=
      List.mem_of_getElem? ((List.getElem?_set_ne hne).trans hj)
    rw [gather, if_pos (List.any_eq_true.mpr ⟨raised, hstays, hvalue⟩), h]
  · exact absurd hfalse (by simp)

structure SameTask (start run : AsyncLookup K M) : Prop where
  lookupId : run.lookupId = start.lookupId
  cumChunkLengthsTotal : run.cumChunkLengthsTotal = start.cumChunkLengthsTotal
  loadingTaskKeys : run.loadingTaskKeys = start.loadingTaskKeys
  tierExpectedChunks : run.tierExpectedChunks = start.tierExpectedChunks
  length_outcomes : run.outcomes.length = start.outcomes.length

theorem SameTask.setOutcome {start : AsyncLookup K M} (h : SameTask start run) (tierIdx : ℕ)
    (outcome : LoadOutcome M) : SameTask start (run.setOutcome tierIdx outcome) :=
  ⟨h.lookupId, h.cumChunkLengthsTotal, h.loadingTaskKeys, h.tierExpectedChunks,
    List.length_set.trans h.length_outcomes⟩

theorem SameTask.settle {start : AsyncLookup K M} (h : SameTask start run) :
    SameTask start run.settle := by
  rw [AsyncLookup.settle]
  split
  · exact h
  · exact ⟨h.lookupId, h.cumChunkLengthsTotal, h.loadingTaskKeys, h.tierExpectedChunks,
      h.length_outcomes⟩

theorem gatherWithKeys_settle (run : AsyncLookup K M) :
    run.settle.gatherWithKeys = run.gatherWithKeys := by
  rw [settle]
  split
  · rfl
  · rfl

theorem allDone_settle (h : run.allDone = false) :
    run.settle.allDone = run.gatherWithKeys.isSome := by
  rw [settle]
  cases run.gatherWithKeys with
  | none => exact h
  | some task => rfl

theorem state_settle (run : AsyncLookup K M) :
    run.settle.state = run.gatherWithKeys.elim run.state fun task =>
      prefetchAllDoneCallback task run.lookupId run.cumChunkLengthsTotal run.tierExpectedChunks
        run.state := by
  rw [settle]
  cases run.gatherWithKeys with
  | none => rfl
  | some task => rfl

structure Follows (start run : AsyncLookup K M) : Prop extends SameTask start run where
  allDone : run.allDone = run.gatherWithKeys.isSome
  state : run.state = run.gatherWithKeys.elim start.state fun task =>
    prefetchAllDoneCallback task start.lookupId start.cumChunkLengthsTotal
      start.tierExpectedChunks start.state

theorem Follows.finishTier {start : AsyncLookup K M} (h : Follows start run)
    (p : ℕ × LoadOutcome M) : Follows start (run.finishTier p) := by
  rw [AsyncLookup.finishTier]
  split
  · rename_i hrunning
    have hsame := h.toSameTask.setOutcome p.1 p.2
    cases hdone : run.allDone with
    | true =>
      obtain ⟨res, hres⟩ : ∃ res, gather run.outcomes = some res := by
        rw [← Option.isSome_iff_exists, ← hdone, h.allDone, gatherWithKeys, Option.isSome_map]
      have hkeys : (run.setOutcome p.1 p.2).gatherWithKeys = run.gatherWithKeys := by
        rw [gatherWithKeys, gatherWithKeys, hres]
        exact congrArg _ (gather_set hrunning hres)
      rw [if_pos rfl]
      refine ⟨hsame, ?_, ?_⟩
      · rw [hkeys]
        exact h.allDone
      · rw [hkeys]
        exact h.state
    | false =>
      have hstart : run.state = start.state := by
        have hnone : run.gatherWithKeys = none := by
          rw [← Option.not_isSome_iff_eq_none, ← h.allDone, hdone]
          simp
        rw [h.state, hnone]
        rfl
      rw [if_neg (by simp)]
      refine ⟨hsame.settle, ?_, ?_⟩
      · rw [gatherWithKeys_settle]
        exact allDone_settle hdone
      · rw [gatherWithKeys_settle, state_settle, hsame.lookupId, hsame.cumChunkLengthsTotal,
          hsame.tierExpectedChunks, show (run.setOutcome p.1 p.2).state = start.state from hstart]
  · exact h

structure Started (keys : List K) (start : AsyncLookup K M) : Prop where
  prefix_keys : start.loadingTaskKeys.flatten <+: keys
  nonempty : ∀ tierKeys ∈ start.loadingTaskKeys, tierKeys ≠ []
  expected : start.tierExpectedChunks = start.loadingTaskKeys.map List.length
  outcomes : start.outcomes = List.replicate start.loadingTaskKeys.length none

variable {table : BackendTable (AsyncBackend K)} {lookupId : String} {keys : List K}
  {cumChunkLengths : List ℕ} {searchRange : Option (List String)} {pin : Bool} {taskId : ℕ}
  {st : AsyncLookupState} {start : AsyncLookup K M}

theorem started_asyncLookupAndPrefetch : Started keys (asyncLookupAndPrefetch (M := M) table lookupId
    keys cumChunkLengths searchRange pin taskId st) := by
  obtain ⟨hkeys, htiers⟩ := lookupTiers_spec lookupId pin keys.length
    (table.getActiveStorageBackends none searchRange) keys 0
  refine ⟨?_, ?_, ?_, ?_⟩
  · rw [asyncLookupAndPrefetch, ← List.flatMap_def]
    exact hkeys
  · intro tierKeys hmem
    obtain ⟨tier, htier, rfl⟩ := List.mem_map.mp hmem
    exact (htiers tier htier).1
  · rw [asyncLookupAndPrefetch, List.map_map]
    exact List.map_congr_left fun tier htier => (htiers tier htier).2
  · simp [asyncLookupAndPrefetch]

theorem Started.follows (h : Started keys start) (hsome : start.loadingTaskKeys ≠ [])
    (hwaiting : start.allDone = false) : Follows start start := by
  have hnone : start.gatherWithKeys = none := by
    obtain ⟨tierKeys, rest, hcons⟩ := List.exists_cons_of_ne_nil hsome
    rw [gatherWithKeys, gather, h.outcomes, hcons]
    simp [List.replicate_succ]
  refine ⟨⟨rfl, rfl, rfl, rfl, rfl⟩, ?_, ?_⟩
  · rw [hnone, hwaiting]
    rfl
  · rw [hnone]
    rfl

theorem final_follows (h : Follows start start) (schedule : List (ℕ × LoadOutcome M)) :
    Follows start (Execution.final AsyncLookup.finishTier start schedule) :=
  Execution.invariant_final (Q := fun _ _ => True) (fun _ p hrun _ => hrun.finishTier p) h
    (Execution.along_of_forall (fun _ _ => trivial) _ _)

theorem gather_of_raised (h : some .raised ∈ run.outcomes) :
    run.gatherWithKeys = some (.error .loading) := by
  rw [gatherWithKeys, gather, if_pos (List.any_eq_true.mpr ⟨_, h, rfl⟩)]
  rfl

theorem gather_of_returned (hended : ∀ outcome ∈ run.outcomes, outcome.isSome = true)
    (h : ∀ outcome ∈ run.outcomes, outcome ≠ some .raised) :
    run.gatherWithKeys = some (.ok (run.tiers.map fun p => p.1.zip p.2)) := by
  have hraised : ¬ run.outcomes.any
      (fun o => (o.map LoadOutcome.isRaised).getD false) = true := by
    rw [List.any_eq_true]
    rintro ⟨outcome, hmem, hvalue⟩
    match outcome, hended outcome hmem with
    | some (.returned memObjs), _ => exact absurd hvalue (by simp [LoadOutcome.isRaised])
    | some .raised, _ => exact h _ hmem rfl
  rw [gatherWithKeys, gather, if_neg hraised, if_pos (List.all_eq_true.mpr hended)]
  rfl

theorem responses_callback {task : Except CallbackError (List (List (K × M)))}
    {cum expected : List ℕ} (em : EventManager ℕ) :
    (prefetchAllDoneCallback task lookupId cum expected
        { st with eventManager := em.addEvent lookupId taskId }).responses =
      st.responses ++ (((task.bind (countRetrieved · expected)).toOption.bind (cum[·]?)).map
        fun length => (lookupId, length)).toList := by
  obtain ⟨em', hupdate, -⟩ := em.updateEventStatus_addEvent lookupId taskId
  rw [prefetchAllDoneCallback, hupdate]
  cases task.bind (countRetrieved · expected) with
  | error e => simp [Except.toOption]
  | ok total =>
    cases hlength : cum[total]? with
    | none => simp [Except.toOption, hlength]
    | some length => simp [Except.toOption, hlength, sendResponseToScheduler]

theorem fst_tiers (hstarted : Started keys start) (h : SameTask start run) :
    run.tiers.map Prod.fst = start.loadingTaskKeys := by
  have hlength : run.outcomes.length = start.loadingTaskKeys.length := by
    rw [h.length_outcomes, hstarted.outcomes, List.length_replicate]
  rw [tiers, h.loadingTaskKeys, List.map_fst_zip]
  exact Nat.le_of_eq (by rw [List.length_map, hlength])

theorem not_answered_of_silent (h : run.state.responses = st.responses) : ¬ Answered st run := by
  rintro ⟨length, -, hresponses⟩
  rw [h] at hresponses
  exact absurd hresponses (by simp)

theorem answered_iff_of_follows (hstarted : Started keys start) (hfollows : Follows start run)
    (hstate : start.state = { st with
      eventManager := st.eventManager.addEvent start.lookupId taskId })
    (hlength : start.cumChunkLengthsTotal.length = keys.length + 1)
    (hended : ∀ outcome ∈ run.outcomes, outcome.isSome = true) :
    Answered st run ↔ LoadsCleanly run := by
  have hresponses : ∀ task, run.gatherWithKeys = some task → run.state.responses =
      st.responses ++ (((task.bind (countRetrieved · start.tierExpectedChunks)).toOption.bind
        (start.cumChunkLengthsTotal[·]?)).map fun length => (start.lookupId, length)).toList := by
    intro task htask
    rw [hfollows.state, htask, Option.elim_some, hstate]
    exact responses_callback st.eventManager
  by_cases hraised : some .raised ∈ run.outcomes
  · have hsilent : run.state.responses = st.responses := by
      rw [hresponses _ (gather_of_raised hraised)]
      exact List.append_nil _
    exact ⟨fun h => absurd h (not_answered_of_silent hsilent),
      fun h => absurd rfl (h.returned _ hraised)⟩
  · have hreturned : ∀ outcome ∈ run.outcomes, outcome ≠ some .raised :=
      fun outcome hmem heq => hraised (heq ▸ hmem)
    have hfst := fst_tiers hstarted hfollows.toSameTask
    have hexpected : start.tierExpectedChunks = run.tiers.map fun p => p.1.length := by
      rw [hstarted.expected, ← hfst, List.map_map]
      rfl
    have hkeys : ∀ p ∈ run.tiers, p.1 ≠ [] := fun p hp =>
      hstarted.nonempty p.1 (hfst ▸ List.mem_map_of_mem hp)
    obtain ⟨hok, herror⟩ := countRetrieved_eq hkeys
    have hsent := hresponses _ (gather_of_returned hended hreturned)
    rw [hexpected] at hsent
    by_cases hshort : NothingAfterShort run.tiers
    · have hle : leadingReturned run.tiers ≤ keys.length := by
        refine Nat.le_trans (leadingReturned_le run.tiers) ?_
        rw [List.flatMap_def, hfst]
        exact hstarted.prefix_keys.length_le
      have hget := List.getElem?_eq_getElem (l := start.cumChunkLengthsTotal)
        (i := leadingReturned run.tiers) (by omega)
      refine ⟨fun _ => ⟨hreturned, hshort⟩, fun _ => ?_⟩
      rw [Answered, hfollows.cumChunkLengthsTotal, hsent, hfollows.lookupId]
      refine ⟨_, hget, ?_⟩
      simp only [Except.bind, hok hshort, Except.toOption, Option.bind_some, hget, Option.map_some,
        Option.toList_some]
    · have hsilent : run.state.responses = st.responses := by
        rw [hsent]
        simp [Except.bind, herror hshort, Except.toOption]
      exact ⟨fun h => absurd h (not_answered_of_silent hsilent),
        fun h => absurd h.nothingAfterShort hshort⟩

theorem finishTier_of_no_tiers (h : run.outcomes = []) (p : ℕ × LoadOutcome M) :
    run.finishTier p = run := by
  rw [finishTier, h, List.getElem?_nil]

theorem final_of_no_tiers (h : run.outcomes = []) (schedule : List (ℕ × LoadOutcome M)) :
    Execution.final AsyncLookup.finishTier run schedule = run := by
  induction schedule with
  | nil => rfl
  | cons p schedule ih => rw [Execution.final_cons, finishTier_of_no_tiers h, ih]

theorem answered_iff {schedule : List (ℕ × LoadOutcome M)}
    (hlength : cumChunkLengths.length = keys.length + 1) (hfirst : cumChunkLengths[0]? = some 0)
    (hrun : run = Execution.final AsyncLookup.finishTier (asyncLookupAndPrefetch table lookupId keys
      cumChunkLengths searchRange pin taskId st) schedule)
    (hended : ∀ outcome ∈ run.outcomes, outcome.isSome = true) :
    Answered st run ↔ LoadsCleanly run := by
  have hstarted : Started keys (asyncLookupAndPrefetch (M := M) table lookupId keys cumChunkLengths
    searchRange pin taskId st) := started_asyncLookupAndPrefetch
  cases htiers : lookupTiers lookupId pin keys.length
      (table.getActiveStorageBackends none searchRange) keys 0 with
  | nil =>
    have hstart : asyncLookupAndPrefetch (M := M) table lookupId keys cumChunkLengths searchRange
        pin taskId st = ⟨lookupId, cumChunkLengths, [], [], [], true,
          sendResponseToScheduler st lookupId 0⟩ := by
      simp [asyncLookupAndPrefetch, htiers]
    rw [hstart, final_of_no_tiers rfl] at hrun
    rw [hrun]
    exact ⟨fun _ => ⟨fun _ h => absurd h List.not_mem_nil, .nil⟩, fun _ => ⟨0, hfirst, rfl⟩⟩
  | cons tier tiers =>
    have hsome : (asyncLookupAndPrefetch (M := M) table lookupId keys cumChunkLengths searchRange
        pin taskId st).loadingTaskKeys ≠ [] := by
      simp [asyncLookupAndPrefetch, htiers]
    have hwaiting : (asyncLookupAndPrefetch (M := M) table lookupId keys cumChunkLengths searchRange
        pin taskId st).allDone = false := by
      simp [asyncLookupAndPrefetch, htiers]
    have hfollows := final_follows (hstarted.follows hsome hwaiting) schedule
    rw [← hrun] at hfollows
    have hstate : (asyncLookupAndPrefetch (M := M) table lookupId keys cumChunkLengths searchRange
        pin taskId st).state = { st with
          eventManager := st.eventManager.addEvent lookupId taskId } := by
      simp [asyncLookupAndPrefetch, htiers]
    exact answered_iff_of_follows hstarted hfollows hstate hlength hended

def cpuTier : BackendTable (AsyncBackend ℕ) :=
  ⟨Dict.empty.set "LocalCPUBackend" ⟨fun _ keys _ => keys.length, fun _ _ _ => Nat.le_refl _⟩,
    false, []⟩

def idleState : AsyncLookupState := ⟨EventManager.empty, [], []⟩

def oneChunkLookup (outcome : LoadOutcome ℕ) : AsyncLookup ℕ ℕ :=
  Execution.final AsyncLookup.finishTier
    (asyncLookupAndPrefetch cpuTier "req" [7] [0, 256] none true 0 idleState) [(0, outcome)]

theorem answered_iff_oneChunkLookup : Answered idleState (oneChunkLookup (.returned [5])) ↔
    LoadsCleanly (oneChunkLookup (.returned [5])) :=
  have hrun : oneChunkLookup (.returned [5]) = Execution.final AsyncLookup.finishTier
    (asyncLookupAndPrefetch cpuTier "req" [7] [0, 256] none true 0 idleState)
      [(0, .returned [5])] := rfl
  answered_iff rfl rfl hrun fun outcome hmem => by
    obtain rfl := List.mem_singleton.mp hmem
    rfl

theorem not_answered_evicted : (oneChunkLookup .raised).outcomes = [some .raised] ∧
    (oneChunkLookup .raised).state.responses = [] ∧
    ¬ Answered idleState (oneChunkLookup .raised) := by
  refine ⟨by rfl, by rfl, ?_⟩
  rintro ⟨length, -, hresponses⟩
  exact absurd hresponses (by simp [show (oneChunkLookup .raised).state.responses = [] from rfl])

end AsyncLookup

end LMCache
