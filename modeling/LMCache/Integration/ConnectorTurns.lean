import LMCache.Integration.TrackerSteps

namespace LMCache

open List RequestTracker Option

inductive RequestStatus where
  | waiting
  | running
  | preempted
deriving DecidableEq, Repr

structure RequestState where
  request : VllmRequest
  status : RequestStatus
  blockIds : List ℕ

def RequestState.newRequestData (state : RequestState) : NewRequestData :=
  ⟨state.request.promptTokenIds, state.blockIds, state.request.numComputedTokens,
    state.request.mmFeatures, state.request.requestSkip⟩

namespace SchedulerConnector

variable {I : Type} [DecidableEq I]

section Saved

variable (config : SaveConfig) (reported : List (I × ℕ)) (emitted : List (I × ReqMeta))

def Saved (reqId : I) (numSavedTokens : ℕ) : Prop :=
  ∀ k, (k + 1) * config.chunkSize ≤ numSavedTokens →
    (∃ hit, (reqId, hit) ∈ reported ∧ (k + 1) * config.chunkSize ≤ hit) ∨
      ∃ reqMeta, (reqId, reqMeta) ∈ emitted ∧ reqMeta.Stores config k

def AllSaved (c : SchedulerConnector I) : Prop :=
  ∀ reqId tracker, c.requestTrackers.get? reqId = some tracker →
    Saved config reported emitted reqId tracker.numSavedTokens

variable {config reported emitted}

omit [DecidableEq I] in
theorem Saved.mono {reqId : I} {m n : ℕ} (h : Saved config reported emitted reqId n) (hle : m ≤ n)
    {reported' : List (I × ℕ)} {emitted' : List (I × ReqMeta)}
    (hreported : ∀ p ∈ reported, p ∈ reported') (hemitted : ∀ p ∈ emitted, p ∈ emitted') :
    Saved config reported' emitted' reqId m := by
  intro k hk
  rcases h k (hk.trans hle) with ⟨hit, hmem, hhit⟩ | ⟨reqMeta, hmem, hstores⟩
  · exact .inl ⟨hit, hreported _ hmem, hhit⟩
  · exact .inr ⟨reqMeta, hemitted _ hmem, hstores⟩

end Saved

def AllReported (reported : List (I × ℕ)) (c : SchedulerConnector I) : Prop :=
  ∀ reqId spec, c.loadSpecs.get? reqId = some spec →
    ∃ hit, (reqId, hit) ∈ reported ∧ spec.lmcacheCachedTokens ≤ hit

theorem AllReported.mono {reported : List (I × ℕ)} {c c' : SchedulerConnector I}
    (h : AllReported reported c)
    (hpopped : ∀ reqId spec, c'.loadSpecs.get? reqId = some spec →
      c.loadSpecs.get? reqId = some spec) : AllReported reported c' :=
  fun reqId spec hget => h reqId spec (hpopped reqId spec hget)

structure Turns (config : SchedulerConfig I) (reported : List (I × ℕ))
    (states : I → Option RequestState) (numScheduledTokens : I → ℕ) (reqIds : List I)
    (c c' : SchedulerConnector I) (metas : List (I × ReqMeta)) : Prop where
  caught : ∀ reqId ∈ reqIds, config.mockReq reqId = false → ∃ state tracker,
    states reqId = some state ∧ c'.requestTrackers.get? reqId = some tracker ∧
      tracker.Caught state.request state.blockIds (numScheduledTokens reqId)
  trackers : ∀ reqId ∉ reqIds, c'.requestTrackers.get? reqId = c.requestTrackers.get? reqId
  specs : ∀ reqId ∉ reqIds, c'.loadSpecs.get? reqId = c.loadSpecs.get? reqId
  unfinished : c'.unfinishedRequests = c.unfinishedRequests
  mapped : ∀ p ∈ metas, ∃ state, states p.1 = some state ∧
    p.2.MapsTo config.toSaveConfig state.blockIds ∧
      p.2.tokenIds = applyMmHashesToTokenIds
        (state.request.allTokenIds.take p.2.tokenIds.length) state.request.mmFeatures
  popped : ∀ reqId spec, c'.loadSpecs.get? reqId = some spec → c.loadSpecs.get? reqId = some spec
  saved : ∀ emitted, AllReported reported c → AllSaved config.toSaveConfig reported emitted c →
    AllSaved config.toSaveConfig reported (emitted ++ metas) c'

namespace Turns

variable {config : SchedulerConfig I} {reported : List (I × ℕ)} {states : I → Option RequestState}
  {numScheduledTokens : I → ℕ} {c c' c'' : SchedulerConnector I} {reqIds reqIds' : List I}
  {metas metas' : List (I × ReqMeta)}

theorem nil (config : SchedulerConfig I) (reported : List (I × ℕ))
    (states : I → Option RequestState) (numScheduledTokens : I → ℕ) (c : SchedulerConnector I) :
    Turns config reported states numScheduledTokens [] c c [] where
  caught := fun _ hmem => absurd hmem not_mem_nil
  trackers := fun _ _ => rfl
  specs := fun _ _ => rfl
  unfinished := rfl
  mapped := fun _ hmem => absurd hmem not_mem_nil
  popped := fun _ _ h => h
  saved := fun emitted _ h => by rwa [append_nil]

theorem append (h : Turns config reported states numScheduledTokens reqIds c c' metas)
    (h' : Turns config reported states numScheduledTokens reqIds' c' c'' metas')
    (hdisjoint : ∀ reqId ∈ reqIds, reqId ∉ reqIds') :
    Turns config reported states numScheduledTokens (reqIds ++ reqIds') c c''
      (metas ++ metas') := by
  refine ⟨fun reqId hmem hmock => ?_, fun reqId hmem => ?_, fun reqId hmem => ?_,
    h'.unfinished.trans h.unfinished, fun p hmem => ?_,
    fun reqId spec hget => h.popped reqId spec (h'.popped reqId spec hget),
    fun emitted hreported hsaved => ?_⟩
  · rcases mem_append.mp hmem with hfirst | hsecond
    · obtain ⟨state, tracker, hstate, htracker, hcaught⟩ := h.caught reqId hfirst hmock
      exact ⟨state, tracker, hstate, (h'.trackers reqId (hdisjoint reqId hfirst)).trans htracker,
        hcaught⟩
    · exact h'.caught reqId hsecond hmock
  · rw [mem_append, not_or] at hmem
    exact (h'.trackers reqId hmem.2).trans (h.trackers reqId hmem.1)
  · rw [mem_append, not_or] at hmem
    exact (h'.specs reqId hmem.2).trans (h.specs reqId hmem.1)
  · exact (mem_append.mp hmem).elim (h.mapped p) (h'.mapped p)
  · rw [← append_assoc]
    exact h'.saved _ (hreported.mono h.popped) (h.saved emitted hreported hsaved)

theorem emit {reqId : I} {state : RequestState} {tracker : RequestTracker}
    (hstate : states reqId = some state)
    (hcaught : tracker.Caught state.request state.blockIds (numScheduledTokens reqId))
    (hslots : state.request.numComputedTokens + numScheduledTokens reqId ≤
      state.blockIds.length * config.blockSize)
    (hsaved : ∀ emitted, AllReported reported c → AllSaved config.toSaveConfig reported emitted c →
      Saved config.toSaveConfig reported emitted reqId tracker.numSavedTokens)
    (loadSpec : Option LoadSpec) :
    Turns config reported states numScheduledTokens [reqId] c
      (SchedulerConnector.emit config c reqId tracker loadSpec).1
      (SchedulerConnector.emit config c reqId tracker loadSpec).2.toList := by
  have hmade := ReqMeta.made_fromRequestTracker config.toSaveConfig tracker loadSpec
  rw [SchedulerConnector.emit]
  generalize ReqMeta.fromRequestTracker config.toSaveConfig tracker loadSpec = made at hmade ⊢
  obtain ⟨reqMeta, next⟩ := made
  dsimp only at hmade ⊢
  refine ⟨fun id hid _ => ?_, fun id hid => ?_, fun id hid => ?_, rfl, fun p hp => ?_,
    fun id spec hget => ?_, fun emitted hreported hall id other hget => ?_⟩
  · rw [mem_singleton.mp hid]
    exact ⟨state, next, hstate, Dict.get?_set_self _ _ _, hmade.tokenIds.trans hcaught.tokenIds,
      hmade.allocatedBlockIds.trans hcaught.allocatedBlockIds,
      hmade.mmFeatures.trans hcaught.mmFeatures⟩
  · exact Dict.get?_set_ne _ _ fun heq => hid (mem_singleton.mpr heq.symm)
  · rw [Dict.get?_erase, if_neg fun heq => hid (mem_singleton.mpr heq.symm)]
  · obtain ⟨made, hreqMeta, rfl⟩ := map_eq_some_iff.mp (mem_toList.mp hp)
    have hlength := hmade.length made hreqMeta
    have htokens := hmade.tokens made hreqMeta
    have hslots' := hmade.slots made hreqMeta
    rw [hcaught.tokenIds] at hlength htokens
    rw [length_take] at hlength
    rw [hcaught.allocatedBlockIds] at hslots'
    have hfits : made.tokenIds.length ≤ state.blockIds.length * config.blockSize := by omega
    refine ⟨state, hstate, ReqMeta.mapsTo_of_slotsOf hslots' hfits, ?_⟩
    rw [take_take, Nat.min_eq_left (by omega), hcaught.mmFeatures] at htokens
    exact htokens
  · rw [Dict.get?_erase] at hget
    split_ifs at hget
    exact hget
  · rw [Dict.get?_set] at hget
    split_ifs at hget with heq
    · rw [← heq, ← some.inj hget]
      intro k hk
      rcases hmade.saved k hk with hold | ⟨made, hreqMeta, hstores⟩
      · exact (hsaved emitted hreported hall).mono le_rfl (fun _ hmem => hmem)
          (fun _ => mem_append_left _) k hold
      · refine .inr ⟨made, mem_append_right _ ?_, hstores⟩
        rw [hreqMeta]
        exact mem_singleton_self _
    · exact (hall id other hget).mono le_rfl (fun _ hmem => hmem)
        fun _ => mem_append_left _

end Turns

section Loops

variable {config : SchedulerConfig I} {reported : List (I × ℕ)} {states : I → Option RequestState}
  {numScheduledTokens : I → ℕ} {c : SchedulerConnector I}

theorem saved_lmcacheCached {reqId : I} (hreported : AllReported reported c)
    (emitted : List (I × ReqMeta)) :
    Saved config.toSaveConfig reported emitted reqId (lmcacheCached (c.loadSpecs.get? reqId)) := by
  intro k hk
  cases hspec : c.loadSpecs.get? reqId with
  | none =>
    rw [hspec] at hk
    have hpos := Nat.mul_pos (Nat.succ_pos k) config.chunkSizePos
    exact absurd hk (Nat.not_le_of_lt hpos)
  | some spec =>
    rw [hspec] at hk
    obtain ⟨hit, hmem, hle⟩ := hreported reqId spec hspec
    exact .inl ⟨hit, hmem, hk.trans hle⟩

def Granted (config : SchedulerConfig I) (state : RequestState) (n : ℕ) : Prop :=
  state.request.numComputedTokens + n ≤ state.request.numTokens ∧
    state.request.numComputedTokens + n ≤ state.blockIds.length * config.blockSize

instance (config : SchedulerConfig I) (state : RequestState) (n : ℕ) :
    Decidable (Granted config state n) :=
  inferInstanceAs (Decidable (_ ∧ _))

def NewReady (config : SchedulerConfig I) (states : I → Option RequestState)
    (numScheduledTokens : I → ℕ) (entry : I × NewRequestData) : Prop :=
  ∃ state, states entry.1 = some state ∧ entry.2 = state.newRequestData ∧
    state.request.promptTokenIds = state.request.allTokenIds ∧
      Granted config state (numScheduledTokens entry.1)

theorem turn_newReq {entry : I × NewRequestData}
    (h : NewReady config states numScheduledTokens entry) :
    ∃ c' reqMeta, newReq config numScheduledTokens c entry = .ok (c', reqMeta) ∧
      Turns config reported states numScheduledTokens [entry.1] c c' reqMeta.toList := by
  obtain ⟨state, hstate, hdata, hprompt, _, hslots⟩ := h
  rw [newReq]
  dsimp only
  split_ifs with hmock
  · refine ⟨c, none, rfl, fun reqId hmem hmock' => ?_, fun _ _ => rfl, fun _ _ => rfl, rfl,
      fun _ hmem => absurd hmem not_mem_nil, fun _ _ hget => hget,
      fun emitted _ hsaved => ?_⟩
    · rw [mem_singleton.mp hmem, hmock] at hmock'
      cases hmock'
    · rw [toList_none, append_nil]
      exact hsaved
  · have hcaught : (fromNewRequest entry.2 (c.tmpDisaggTracker.get? entry.1)
        (entry.2.numComputedTokens + numScheduledTokens entry.1)
        (lmcacheCached (c.loadSpecs.get? entry.1))
        (skipSave config ((c.requestsPriority.get? entry.1).getD 0))).Caught state.request
          state.blockIds (numScheduledTokens entry.1) := by
      rw [hdata]
      exact ⟨congrArg (take _) hprompt, rfl, rfl⟩
    have hsaved : ∀ emitted, AllReported reported c →
        AllSaved config.toSaveConfig reported emitted c → Saved config.toSaveConfig reported
          emitted entry.1 (lmcacheCached (c.loadSpecs.get? entry.1)) :=
      fun emitted hreported _ => saved_lmcacheCached hreported emitted
    have hturn := Turns.emit hstate hcaught hslots hsaved (c.loadSpecs.get? entry.1)
    exact ⟨_, _, rfl, hturn.caught, hturn.trackers, hturn.specs, hturn.unfinished, hturn.mapped,
      hturn.popped, hturn.saved⟩

def Fits (config : SchedulerConfig I) (loadSpec : Option LoadSpec) (request : VllmRequest)
    (n : ℕ) : Prop :=
  (config.cachedReqsAreList = false → loadSpec.isSome = true) ∧
    (request.numComputedTokens = max (lmcacheCached loadSpec) (vllmCached loadSpec) ∨
      config.cachedReqsAreList = true ∧
        request.numComputedTokens ≤ max (lmcacheCached loadSpec) (vllmCached loadSpec) ∧
          request.numComputedTokens + n = request.numTokens)

structure CachedReady (config : SchedulerConfig I) (numScheduledTokens : I → ℕ)
    (c : SchedulerConnector I) (entry : CachedRequest I) (state : RequestState)
    (tracker : RequestTracker) : Prop where
  tracked : c.requestTrackers.get? entry.reqId = some tracker
  unfinished : entry.reqId ∈ c.unfinishedRequests
  granted : Granted config state (numScheduledTokens entry.reqId)
  newTokenIds : entry.newTokenIds = (state.request.allTokenIds.drop
    state.request.numComputedTokens).take (numScheduledTokens entry.reqId)
  running : entry.resumed = false → ∃ blockIds,
    tracker.Follows config.toSaveConfig state.request blockIds ∧
      blockIds ++ entry.newBlockIds = state.blockIds ∧
        (config.cachedReqsAreList = true →
          tracker.tokenIds.length = state.request.numComputedTokens)
  resumed : entry.resumed = true → tracker.mmFeatures = state.request.mmFeatures ∧
    entry.newBlockIds = state.blockIds ∧
      Fits config (c.loadSpecs.get? entry.reqId) state.request (numScheduledTokens entry.reqId)

variable {entry : CachedRequest I} {state : RequestState} {tracker : RequestTracker}
  {current : RequestTracker} {newTokenIds : List ℕ}

theorem turn_resumed (h : CachedReady config numScheduledTokens c entry state tracker)
    (hstate : states entry.reqId = some state) (hresumed : entry.resumed = true)
    (hmm : current.mmFeatures = tracker.mmFeatures)
    (hnew : newTokenIds = (state.request.allTokenIds.drop state.request.numComputedTokens).take
      (numScheduledTokens entry.reqId)) :
    Turns config reported states numScheduledTokens [entry.reqId] c
      (emit config c entry.reqId (current.update newTokenIds entry.newBlockIds
        (some state.request.allTokenIds) (lmcacheCached (c.loadSpecs.get? entry.reqId))
        (vllmCached (c.loadSpecs.get? entry.reqId))) (c.loadSpecs.get? entry.reqId)).1
      (emit config c entry.reqId (current.update newTokenIds entry.newBlockIds
        (some state.request.allTokenIds) (lmcacheCached (c.loadSpecs.get? entry.reqId))
        (vllmCached (c.loadSpecs.get? entry.reqId))) (c.loadSpecs.get? entry.reqId)).2.toList := by
  obtain ⟨hmm', hblocks, _, hfits⟩ := h.resumed hresumed
  refine Turns.emit hstate ?_ h.granted.2 (fun emitted hreported _ => ?_) _
  · rw [hblocks]
    exact caught_of_resumed (hmm.trans hmm') hnew h.granted.1 (hfits.imp_right And.right)
  · rw [(update_resumed _ _ _ _ _ _).2.2.1]
    exact saved_lmcacheCached hreported emitted

theorem turn_running (h : CachedReady config numScheduledTokens c entry state tracker)
    (hstate : states entry.reqId = some state) (htokens : current.tokenIds =
      state.request.allTokenIds.take state.request.numComputedTokens)
    (hblocks : current.allocatedBlockIds ++ entry.newBlockIds = state.blockIds)
    (hsaved : current.numSavedTokens ≤ tracker.numSavedTokens)
    (hmm : current.mmFeatures = state.request.mmFeatures)
    (hnew : newTokenIds = (state.request.allTokenIds.drop state.request.numComputedTokens).take
      (numScheduledTokens entry.reqId)) (loadSpec : Option LoadSpec) :
    Turns config reported states numScheduledTokens [entry.reqId] c
      (emit config c entry.reqId (current.update newTokenIds entry.newBlockIds none
        (lmcacheCached loadSpec) (vllmCached loadSpec)) loadSpec).1
      (emit config c entry.reqId (current.update newTokenIds entry.newBlockIds none
        (lmcacheCached loadSpec) (vllmCached loadSpec)) loadSpec).2.toList := by
  refine Turns.emit hstate (caught_of_running htokens hblocks hmm hnew _ _) h.granted.2
    (fun emitted _ hall => ?_) _
  rw [(update_running _ _ _ _ _).2.2.1]
  exact (hall entry.reqId tracker h.tracked).mono hsaved (fun _ hmem => hmem) fun _ hmem => hmem

theorem turn_cachedReq (h : CachedReady config numScheduledTokens c entry state tracker)
    (hstate : states entry.reqId = some state) (hlist : config.cachedReqsAreList = false) :
    ∃ c' reqMeta, cachedReq config (fun reqId => (states reqId).map RequestState.request)
        numScheduledTokens c entry = .ok (c', reqMeta) ∧
      Turns config reported states numScheduledTokens [entry.reqId] c c' reqMeta.toList := by
  have hrequest : (if entry.reqId ∈ c.unfinishedRequests then
      (states entry.reqId).map RequestState.request else none) = some state.request := by
    rw [if_pos h.unfinished, hstate, map_some]
  simp only [cachedReq, h.tracked, hrequest]
  cases hresumed : entry.resumed with
  | true =>
    obtain ⟨hmm, _, hsome, hfits⟩ := h.resumed hresumed
    have hspec : (c.loadSpecs.get? entry.reqId).isNone = false := by
      rw [isNone_eq_false_iff]
      exact hsome hlist
    have hmax := hfits.resolve_right fun h => by
      rw [hlist] at h
      exact Bool.false_ne_true h.1
    rw [if_neg (by rw [hspec]; exact Bool.false_ne_true),
      if_neg (by rw [decide_eq_true hmax]; exact Bool.false_ne_true)]
    refine ⟨_, _, rfl, turn_resumed h hstate hresumed ?_ rfl⟩
    rw [rolledBack]
    dsimp only
    split_ifs <;> rfl
  | false =>
    obtain ⟨blockIds, hfollows, hblocks, _⟩ := h.running hresumed
    obtain ⟨htokens, halloc, hsaved, hmm⟩ :=
      rolledBack_spec config hfollows
    rw [if_neg (by exact Bool.false_ne_true), if_neg (by exact Bool.false_ne_true)]
    refine ⟨_, _, rfl, turn_running h hstate htokens ?_ hsaved
      (hmm.trans hfollows.mmFeatures) rfl _⟩
    rw [halloc, hfollows.allocatedBlockIds, hblocks]

theorem turn_listReq (h : CachedReady config numScheduledTokens c entry state tracker)
    (hstate : states entry.reqId = some state) (hlist : config.cachedReqsAreList = true) :
    ∃ c' reqMeta, listReq config (fun reqId => (states reqId).map RequestState.request) c entry =
        .ok (c', reqMeta) ∧
      Turns config reported states numScheduledTokens [entry.reqId] c c' reqMeta.toList := by
  have hrequest : (if entry.reqId ∈ c.unfinishedRequests then
      (states entry.reqId).map RequestState.request else none) = some state.request := by
    rw [if_pos h.unfinished, hstate, map_some]
  simp only [listReq, h.tracked, hrequest]
  cases hresumed : entry.resumed with
  | true =>
    rw [if_neg (by exact Bool.false_ne_true)]
    exact ⟨_, _, rfl, turn_resumed h hstate hresumed rfl h.newTokenIds⟩
  | false =>
    obtain ⟨blockIds, hfollows, hblocks, hlength⟩ := h.running hresumed
    rw [if_neg (by exact Bool.false_ne_true)]
    refine ⟨_, _, rfl, turn_running h hstate ?_ ?_ le_rfl hfollows.mmFeatures h.newTokenIds _⟩
    · rw [← hlength hlist]
      exact hfollows.tokenIds
    · rw [hfollows.allocatedBlockIds, hblocks]

theorem collect_spec {E : Type} {turn : SchedulerConnector I → E →
      Except ConnectorError (SchedulerConnector I × Option (I × ReqMeta))} {key : E → I}
    {Ready : SchedulerConnector I → E → Prop}
    (hturn : ∀ c entry, Ready c entry → ∃ c' reqMeta, turn c entry = .ok (c', reqMeta) ∧
      Turns config reported states numScheduledTokens [key entry] c c' reqMeta.toList)
    (hframe : ∀ c c' reqIds metas entry,
      Turns config reported states numScheduledTokens reqIds c c' metas → key entry ∉ reqIds →
        Ready c entry → Ready c' entry)
    {entries : List E} (hnodup : (entries.map key).Nodup)
    (hready : ∀ entry ∈ entries, Ready c entry) :
    ∃ c' metas, collect turn c entries = .ok (c', metas) ∧
      Turns config reported states numScheduledTokens (entries.map key) c c' metas := by
  induction entries generalizing c with
  | nil => exact ⟨c, [], rfl, Turns.nil config reported states numScheduledTokens c⟩
  | cons entry entries ih =>
    rw [map_cons, nodup_cons] at hnodup
    obtain ⟨next, reqMeta, hok, hfirst⟩ := hturn c entry (hready entry mem_cons_self)
    have hrest : ∀ other ∈ entries, Ready next other := by
      intro other hmem
      refine hframe c next _ _ other hfirst (fun heq => hnodup.1 ?_)
        (hready other (mem_cons_of_mem entry hmem))
      rw [← mem_singleton.mp heq]
      exact mem_map_of_mem hmem
    obtain ⟨last, metas, hoks, hturns⟩ := ih hnodup.2 hrest
    refine ⟨last, reqMeta.toList ++ metas, by rw [collect, hok]; simp only [hoks], ?_⟩
    rw [map_cons, ← singleton_append]
    refine hfirst.append hturns fun reqId hmem => ?_
    rw [mem_singleton.mp hmem]
    exact hnodup.1

theorem CachedReady.frame {c' : SchedulerConnector I} {reqIds : List I}
    {metas : List (I × ReqMeta)}
    (h : CachedReady config numScheduledTokens c entry state tracker)
    (hturns : Turns config reported states numScheduledTokens reqIds c c' metas)
    (hnot : entry.reqId ∉ reqIds) :
    CachedReady config numScheduledTokens c' entry state tracker :=
  ⟨(hturns.trackers _ hnot).trans h.tracked, by rw [hturns.unfinished]; exact h.unfinished,
    h.granted, h.newTokenIds, h.running, by rw [hturns.specs _ hnot]; exact h.resumed⟩

theorem buildConnectorMeta_spec {output : SchedulerOutput I}
    (hnodup : (output.scheduledNewReqs.map Prod.fst ++
      output.scheduledCachedReqs.map CachedRequest.reqId).Nodup)
    (hnew : ∀ entry ∈ output.scheduledNewReqs,
      NewReady config states output.numScheduledTokens entry)
    (hcached : ∀ entry ∈ output.scheduledCachedReqs, ∃ state tracker,
      states entry.reqId = some state ∧
        CachedReady config output.numScheduledTokens (c.popFinished output.finishedReqIds) entry
          state tracker) :
    ∃ c' metas, buildConnectorMeta config (fun reqId => (states reqId).map RequestState.request) c
        output = .ok (c', metas) ∧
      Turns config reported states output.numScheduledTokens
        (output.scheduledNewReqs.map Prod.fst ++ output.scheduledCachedReqs.map CachedRequest.reqId)
        (c.popFinished output.finishedReqIds) c' metas := by
  obtain ⟨hnewNodup, hcachedNodup, hdisjoint⟩ := nodup_append.mp hnodup
  have hnewTurn : ∀ (c : SchedulerConnector I) (entry : I × NewRequestData),
      NewReady config states output.numScheduledTokens entry →
      ∃ c' reqMeta, newReq config output.numScheduledTokens c entry = .ok (c', reqMeta) ∧
        Turns config reported states output.numScheduledTokens [entry.1] c c' reqMeta.toList :=
    fun c entry hready => turn_newReq hready
  obtain ⟨middle, newMetas, hok, hfirst⟩ := collect_spec hnewTurn
    (fun _ _ _ _ _ _ _ hready => hready) hnewNodup hnew
  have hapart : ∀ entry ∈ output.scheduledCachedReqs,
      entry.reqId ∉ output.scheduledNewReqs.map Prod.fst := fun entry hmem hother =>
    hdisjoint _ hother _ (mem_map_of_mem hmem) rfl
  have hturn : ∀ c entry, (∃ state tracker, states entry.reqId = some state ∧
      CachedReady config output.numScheduledTokens c entry state tracker) →
      ∃ c' reqMeta, (if config.cachedReqsAreList then
          listReq config fun reqId => (states reqId).map RequestState.request
        else cachedReq config (fun reqId => (states reqId).map RequestState.request)
          output.numScheduledTokens) c entry = .ok (c', reqMeta) ∧
        Turns config reported states output.numScheduledTokens [entry.reqId] c c'
          reqMeta.toList := by
    rintro c entry ⟨state, tracker, hstate, hready⟩
    cases hlist : config.cachedReqsAreList with
    | true => exact turn_listReq hready hstate hlist
    | false => exact turn_cachedReq hready hstate hlist
  obtain ⟨last, cachedMetas, hok', hsecond⟩ := collect_spec hturn
    (fun _ _ _ _ _ hturns hnot ⟨state, tracker, hstate, hready⟩ =>
      ⟨state, tracker, hstate, hready.frame hturns hnot⟩) hcachedNodup
    fun entry hmem => by
      obtain ⟨state, tracker, hstate, hready⟩ := hcached entry hmem
      exact ⟨state, tracker, hstate, hready.frame hfirst (hapart entry hmem)⟩
  refine ⟨last, newMetas ++ cachedMetas, ?_, hfirst.append hsecond fun reqId hmem hother =>
    hdisjoint reqId hmem reqId hother rfl⟩
  rw [buildConnectorMeta, hok]
  simp only [hok']

end Loops

end SchedulerConnector

end LMCache
