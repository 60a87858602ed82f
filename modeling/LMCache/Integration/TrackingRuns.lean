import LMCache.Foundations.Cells
import LMCache.Integration.SchedulerRuns

namespace LMCache

open Execution List Function Option SchedulerRun SchedulerOutput Nat

namespace SchedulerOutput

variable {I : Type}

def reqIds (output : SchedulerOutput I) : List I :=
  output.scheduledNewReqs.map Prod.fst ++ output.scheduledCachedReqs.map CachedRequest.reqId

variable {output : SchedulerOutput I}

theorem mem_reqIds_new {entry : I × NewRequestData} (h : entry ∈ output.scheduledNewReqs) :
    entry.1 ∈ output.reqIds :=
  mem_append_left _ (mem_map_of_mem h)

theorem mem_reqIds_cached {entry : CachedRequest I} (h : entry ∈ output.scheduledCachedReqs) :
    entry.reqId ∈ output.reqIds :=
  mem_append_right _ (mem_map_of_mem h)

end SchedulerOutput

namespace SchedulerConnector

variable {I : Type} [DecidableEq I] {config : SchedulerConfig I}
  {states states' : I → Option RequestState} {n n' : I → ℕ} {c c' : SchedulerConnector I}

omit [DecidableEq I] in
theorem NewReady.congr {entry : I × NewRequestData} (h : NewReady config states n entry)
    (hstates : states' entry.1 = states entry.1) (hn : n' entry.1 = n entry.1) :
    NewReady config states' n' entry := by
  obtain ⟨state, hstate, hdata, hprompt, hgranted⟩ := h
  exact ⟨state, hstates.trans hstate, hdata, hprompt, hn ▸ hgranted⟩

theorem CachedReady.congr {entry : CachedRequest I} {state : RequestState}
    {tracker : RequestTracker} (h : CachedReady config n c entry state tracker)
    (hn : n' entry.reqId = n entry.reqId)
    (htrackers : c'.requestTrackers.get? entry.reqId = c.requestTrackers.get? entry.reqId)
    (hspecs : c'.loadSpecs.get? entry.reqId = c.loadSpecs.get? entry.reqId)
    (hunfinished : entry.reqId ∈ c.unfinishedRequests → entry.reqId ∈ c'.unfinishedRequests) :
    CachedReady config n' c' entry state tracker :=
  ⟨htrackers.trans h.tracked, hunfinished h.unfinished, hn ▸ h.granted, hn ▸ h.newTokenIds,
    h.running, by rw [hspecs, hn]; exact h.resumed⟩

end SchedulerConnector

namespace SchedulerRun

open SchedulerConnector

variable {I : Type} [DecidableEq I]

structure Good (config : SchedulerConfig I) (c : SchedulerConnector I) (arrived : Finset I) (n : ℕ)
    (reqId : I) (state : RequestState) : Prop where
  arrived : reqId ∈ arrived
  waiting : state.status = .waiting → state.request.promptTokenIds = state.request.allTokenIds
  unfinished : state.status = .running → reqId ∈ c.unfinishedRequests
  status : 0 < n → state.status = .running
  idle : state.status = .running → n = 0 → config.mockReq reqId = false → ∃ tracker,
    c.requestTrackers.get? reqId = some tracker ∧
      tracker.Follows config.toSaveConfig state.request state.blockIds
  preempted : state.status = .preempted → config.mockReq reqId = false → ∃ tracker,
    c.requestTrackers.get? reqId = some tracker ∧ tracker.mmFeatures = state.request.mmFeatures

structure Inv (config : SchedulerConfig I) (run : SchedulerRun I) : Prop where
  notRaised : run.raised = false
  requests : ∀ reqId state, run.requests reqId = some state →
    Good config run.connector run.arrived (run.output.numScheduledTokens reqId) reqId state
  nodup : run.output.reqIds.Nodup
  listed : ∀ reqId, run.Scheduled reqId ↔ reqId ∈ run.output.reqIds
  new : ∀ entry ∈ run.output.scheduledNewReqs,
    NewReady config run.requests run.output.numScheduledTokens entry
  cached : ∀ entry ∈ run.output.scheduledCachedReqs, ∃ state tracker,
    run.requests entry.reqId = some state ∧
      CachedReady config run.output.numScheduledTokens run.connector entry state tracker
  specless : ∀ reqId, config.skipsLookup reqId = true → run.connector.loadSpecs.get? reqId = none
  reported : AllReported run.reported run.connector
  saved : AllSaved config.toSaveConfig run.reported run.emitted run.connector
  finished : ∀ reqId ∈ run.output.finishedReqIds, reqId ∈ run.arrived ∧ run.requests reqId = none

variable {config : SchedulerConfig I} {run : SchedulerRun I} {c c' : SchedulerConnector I}
  {arrived arrived' : Finset I} {n : ℕ} {reqId : I} {state : RequestState}

theorem Good.congr (h : Good config c arrived n reqId state) (harrived : arrived ⊆ arrived')
    (htrackers : c'.requestTrackers.get? reqId = c.requestTrackers.get? reqId)
    (hunfinished : reqId ∈ c.unfinishedRequests → reqId ∈ c'.unfinishedRequests) :
    Good config c' arrived' n reqId state :=
  ⟨harrived h.arrived, h.waiting, fun hstatus => hunfinished (h.unfinished hstatus), h.status,
    by rw [htrackers]; exact h.idle, by rw [htrackers]; exact h.preempted⟩

theorem good_scheduled (harrived : reqId ∈ arrived) (hrunning : state.status = .running) (hn : 0 < n)
    (hmem : reqId ∈ c.unfinishedRequests) : Good config c arrived n reqId state :=
  ⟨harrived, fun hstatus => (by rw [hrunning] at hstatus; cases hstatus), fun _ => hmem,
    fun _ => hrunning, fun _ hzero => absurd hzero hn.ne',
    fun hstatus => (by rw [hrunning] at hstatus; cases hstatus)⟩

theorem inv_start (config : SchedulerConfig I) : Inv config start where
  notRaised := rfl
  requests := fun _ _ h => by cases h
  nodup := nodup_nil
  listed := fun _ => ⟨fun h => absurd h (lt_irrefl 0), fun h => absurd h not_mem_nil⟩
  new := fun _ h => absurd h not_mem_nil
  cached := fun _ h => absurd h not_mem_nil
  specless := fun _ _ => rfl
  reported := fun _ _ h => by cases h
  saved := fun _ _ h => by cases h
  finished := fun _ h => absurd h not_mem_nil

theorem Inv.update {next : Option RequestState} {arrived : Finset I} {finishedReqIds : List I}
    (h : Inv config run) (hnot : ¬ run.Scheduled reqId) (harrived : run.arrived ⊆ arrived)
    (hnext : ∀ state, next = some state → Good config run.connector arrived 0 reqId state)
    (hfinished : ∀ id ∈ finishedReqIds, id ∈ arrived ∧ update run.requests reqId next id = none) :
    Inv config { run with
      requests := update run.requests reqId next
      arrived := arrived
      output := { run.output with finishedReqIds } } := by
  have hlisted : reqId ∉ run.output.reqIds := fun hmem => hnot ((h.listed reqId).mpr hmem)
  refine ⟨h.notRaised, fun id state hstate => ?_, h.nodup, h.listed, fun entry hmem => ?_,
    fun entry hmem => ?_, h.specless, h.reported, h.saved, hfinished⟩
  · change Function.update run.requests reqId next id = some state at hstate
    by_cases heq : id = reqId
    · rw [heq, update_self] at hstate
      have hzero : run.output.numScheduledTokens reqId = 0 := Nat.eq_zero_of_not_pos hnot
      rw [heq]
      exact hzero ▸ hnext state hstate
    · rw [update_of_ne heq] at hstate
      exact (h.requests id state hstate).congr harrived rfl (fun hmem => hmem)
  · have hne : entry.1 ≠ reqId := fun heq =>
      hlisted (heq ▸ mem_reqIds_new hmem)
    exact (h.new entry hmem).congr (update_of_ne hne _ _) rfl
  · obtain ⟨state, tracker, hstate, hready⟩ := h.cached entry hmem
    have hne : entry.reqId ≠ reqId := fun heq =>
      hlisted (heq ▸ mem_reqIds_cached hmem)
    exact ⟨state, tracker, (update_of_ne hne _ _).trans hstate, hready⟩

theorem Inv.alter {change : RequestState → Option RequestState} (h : Inv config run)
    (hchange : ∀ state next, Good config run.connector run.arrived 0 reqId state →
      change state = some next → Good config run.connector run.arrived 0 reqId next) :
    Inv config (run.alter reqId change) := by
  rw [SchedulerRun.alter]
  cases hstate : run.requests reqId with
  | none => exact h
  | some state =>
    dsimp only
    split_ifs with hscheduled
    · exact h
    · cases hnext : change state with
      | none => exact h
      | some next =>
        have hzero : run.output.numScheduledTokens reqId = 0 := Nat.eq_zero_of_not_pos hscheduled
        have hgood := h.requests reqId state hstate
        rw [hzero] at hgood
        refine h.update hscheduled (Finset.Subset.refl _) (fun other heq => ?_)
          fun id hmem => ⟨(h.finished id hmem).1, ?_⟩
        · rw [← some.inj heq]
          exact hchange state next hgood hnext
        · have hne : id ≠ reqId := by
            rintro rfl
            rw [(h.finished id hmem).2] at hstate
            cases hstate
          rw [update_of_ne hne]
          exact (h.finished id hmem).2

variable {next : RequestState}

theorem good_appended {tokenIds : List ℕ} (h : Good config c arrived 0 reqId state)
    (hnext : appended tokenIds state = some next) :
    Good config c arrived 0 reqId next := by
  rw [appended] at hnext
  split_ifs at hnext with hwaiting
  rw [← some.inj hnext]
  refine ⟨h.arrived, fun hstatus => absurd hstatus hwaiting, h.unfinished, h.status,
    fun hstatus hzero hmock => ?_, h.preempted⟩
  obtain ⟨tracker, htracker, hfollows⟩ := h.idle hstatus hzero hmock
  refine ⟨tracker, htracker, ?_, hfollows.computed, hfollows.slots, hfollows.allocatedBlockIds,
    hfollows.mmFeatures⟩
  have hlength : tracker.tokenIds.length ≤ state.request.allTokenIds.length := by
    have heq := congrArg length hfollows.tokenIds
    rw [length_take] at heq
    omega
  change tracker.tokenIds = (state.request.allTokenIds ++ tokenIds).take _
  rw [take_append_of_le_length hlength]
  exact hfollows.tokenIds

theorem good_rolledBack {numComputedTokens : ℕ} (h : Good config c arrived 0 reqId state)
    (hnext : rolledBack numComputedTokens state = some next) :
    Good config c arrived 0 reqId next := by
  rw [rolledBack] at hnext
  split_ifs at hnext with hback
  rw [← some.inj hnext]
  refine ⟨h.arrived, h.waiting, h.unfinished, h.status, fun hstatus hzero hmock => ?_, h.preempted⟩
  obtain ⟨tracker, htracker, hfollows⟩ := h.idle hstatus hzero hmock
  exact ⟨tracker, htracker, hfollows.tokenIds, hback.2.trans hfollows.computed, hfollows.slots,
    hfollows.allocatedBlockIds, hfollows.mmFeatures⟩

theorem good_preempted (h : Good config c arrived 0 reqId state)
    (hnext : preempted state = some next) : Good config c arrived 0 reqId next := by
  rw [preempted] at hnext
  split_ifs at hnext with hrunning
  rw [← some.inj hnext]
  refine ⟨h.arrived, fun hstatus => (by cases hstatus), fun hstatus => (by cases hstatus),
    fun hpos => absurd hpos (lt_irrefl 0), fun hstatus => (by cases hstatus),
    fun _ hmock => ?_⟩
  obtain ⟨tracker, htracker, hfollows⟩ := h.idle hrunning rfl hmock
  exact ⟨tracker, htracker, hfollows.mmFeatures⟩

theorem Inv.arrive (h : Inv config run) (request : VllmRequest) :
    Inv config (run.step config (.arrive reqId request)) := by
  rw [step]
  split_ifs with hmem
  · exact h
  · have hnone : run.requests reqId = none := by
      cases hstate : run.requests reqId with
      | none => rfl
      | some state => exact absurd (h.requests reqId state hstate).arrived hmem
    have hnot : ¬ run.Scheduled reqId := by
      intro hscheduled
      rcases mem_append.mp ((h.listed reqId).mp hscheduled) with hnew | hcached
      · obtain ⟨entry, hentry, rfl⟩ := mem_map.mp hnew
        obtain ⟨state, hstate, _⟩ := h.new entry hentry
        rw [hnone] at hstate
        cases hstate
      · obtain ⟨entry, hentry, rfl⟩ := mem_map.mp hcached
        obtain ⟨state, _, hstate, _⟩ := h.cached entry hentry
        rw [hnone] at hstate
        cases hstate
    refine h.update hnot (Finset.subset_insert _ _) (fun state heq => ?_) fun id hfinished => ?_
    · rw [← some.inj heq]
      exact ⟨Finset.mem_insert_self _ _, fun _ => rfl, fun hstatus => (by cases hstatus),
        fun hpos => absurd hpos (lt_irrefl 0), fun hstatus => (by cases hstatus),
        fun hstatus => (by cases hstatus)⟩
    · obtain ⟨harrived, hid⟩ := h.finished id hfinished
      have hne : id ≠ reqId := fun heq => hmem (heq ▸ harrived)
      exact ⟨Finset.mem_insert_of_mem harrived, (update_of_ne hne _ _).trans hid⟩

theorem Inv.finish (h : Inv config run) : Inv config (run.step config (.finish reqId)) := by
  rw [step]
  cases hstate : run.requests reqId with
  | none => exact h
  | some state =>
    dsimp only
    split_ifs with hscheduled
    · exact h
    · refine h.update hscheduled (Finset.Subset.refl _) (fun other heq => by cases heq)
        fun id hmem => ?_
      rcases mem_append.mp hmem with hold | hnew
      · refine ⟨(h.finished id hold).1, ?_⟩
        by_cases heq : id = reqId
        · rw [heq, update_self]
        · rw [update_of_ne heq]
          exact (h.finished id hold).2
      · rw [mem_singleton.mp hnew, update_self]
        exact ⟨(h.requests reqId state hstate).arrived, rfl⟩

section Ask

variable (request : VllmRequest) (numLocalTokens : ℕ) (cached : CachedLookup)
  (lookup : List ℕ → Option ℕ)

theorem reported_ask : run.reported ⊆
    (run.ask config reqId request numLocalTokens cached lookup).reported :=
  fun _ hmem => mem_append_left _ hmem

theorem ask_frame (run : SchedulerRun I) (config : SchedulerConfig I) (reqId : I) :
    let asked := (run.ask config reqId request numLocalTokens cached lookup).connector
    asked.requestTrackers = run.connector.requestTrackers ∧
      asked.unfinishedRequests = run.connector.unfinishedRequests ∧
        ∀ id ≠ reqId, asked.loadSpecs.get? id = run.connector.loadSpecs.get? id :=
  run.connector.getNumNewMatchedTokens_frame config reqId request numLocalTokens cached lookup

theorem Inv.specless_ask (h : Inv config run) {id : I} (hskip : config.skipsLookup id = true) :
    (run.ask config reqId request numLocalTokens cached lookup).connector.loadSpecs.get? id =
      none := by
  obtain ⟨_, _, hspecs⟩ := run.ask_frame request numLocalTokens cached lookup config reqId
  by_cases heq : id = reqId
  · rw [heq] at hskip ⊢
    rcases run.connector.getNumNewMatchedTokens_cases config reqId request numLocalTokens cached
      lookup with ⟨hsame, _⟩ | ⟨hit, _, hlooked, _⟩
    · rw [ask, hsame]
      exact h.specless reqId hskip
    · rw [hskip] at hlooked
      cases hlooked
  · exact (hspecs id heq).trans (h.specless id hskip)

theorem Inv.allReported_ask (h : Inv config run) :
    AllReported (run.ask config reqId request numLocalTokens cached lookup).reported
      (run.ask config reqId request numLocalTokens cached lookup).connector := by
  obtain ⟨_, _, hspecs⟩ := run.ask_frame request numLocalTokens cached lookup config reqId
  intro id spec hget
  have hold : run.connector.loadSpecs.get? id = some spec → ∃ hit,
      (id, hit) ∈ (run.ask config reqId request numLocalTokens cached lookup).reported ∧
        spec.lmcacheCachedTokens ≤ hit := by
    intro hspec
    obtain ⟨hit, hmem, hle⟩ := h.reported id spec hspec
    exact ⟨hit, reported_ask request numLocalTokens cached lookup hmem, hle⟩
  by_cases heq : id = reqId
  · rw [heq] at hget hold ⊢
    rcases run.connector.getNumNewMatchedTokens_cases config reqId request numLocalTokens cached
      lookup with ⟨hsame, _⟩ | ⟨hit, hhit, _, _, hspec⟩
    · rw [ask, hsame] at hget
      exact hold hget
    · refine ⟨hit, mem_append_right _ ?_, ?_⟩
      · rw [hhit]
        exact mem_singleton_self _
      · rw [← some.inj (hspec.symm.trans hget)]
        exact config.numExternalHitTokens_le request numLocalTokens hit
  · exact hold ((hspecs id heq).symm.trans hget)

theorem Inv.ask (h : Inv config run) (hnot : ¬ run.Scheduled reqId) :
    Inv config (run.ask config reqId request numLocalTokens cached lookup) := by
  obtain ⟨htrackers, hunfinished, hspecs⟩ := run.ask_frame request numLocalTokens cached lookup config reqId
  have hlisted : reqId ∉ run.output.reqIds := fun hmem => hnot ((h.listed reqId).mpr hmem)
  refine ⟨h.notRaised, fun id state hstate => ?_, h.nodup, h.listed, h.new, fun entry hmem => ?_,
    fun id hskip => h.specless_ask request numLocalTokens cached lookup hskip,
    h.allReported_ask request numLocalTokens cached lookup, fun id tracker hget => ?_, h.finished⟩
  · exact (h.requests id state hstate).congr (Finset.Subset.refl _) (by rw [htrackers])
      (fun hmem => hunfinished.ge hmem)
  · obtain ⟨state, tracker, hstate, hready⟩ := h.cached entry hmem
    have hne : entry.reqId ≠ reqId := fun heq =>
      hlisted (heq ▸ mem_reqIds_cached hmem)
    exact ⟨state, tracker, hstate, hready.congr rfl (by rw [htrackers]) (hspecs _ hne)
      (fun hmem => hunfinished.ge hmem)⟩
  · rw [htrackers] at hget
    exact (h.saved id tracker hget).mono le_rfl (reported_ask request numLocalTokens cached lookup)
      fun _ hmem => hmem

end Ask

theorem Inv.listed_enter (h : Inv config run) (hnot : ¬ run.Scheduled reqId) (hn : 0 < n)
    {reqIds : List I} (hperm : reqIds.Perm (run.output.reqIds ++ [reqId])) :
    reqIds.Nodup ∧
      ∀ id, 0 < Function.update run.output.numScheduledTokens reqId n id ↔ id ∈ reqIds := by
  have hlisted : reqId ∉ run.output.reqIds := fun hmem => hnot ((h.listed reqId).mpr hmem)
  constructor
  · refine hperm.nodup_iff.mpr (nodup_append.mpr ⟨h.nodup, nodup_singleton _, ?_⟩)
    rintro a ha b hb rfl
    exact hlisted (mem_singleton.mp hb ▸ ha)
  · intro id
    refine Iff.trans ?_ hperm.mem_iff.symm
    rw [mem_append, mem_singleton]
    by_cases heq : id = reqId
    · rw [heq, update_self]
      exact ⟨fun _ => .inr rfl, fun _ => hn⟩
    · rw [update_of_ne heq, or_iff_left heq]
      exact h.listed id

variable {connector : SchedulerConnector I}

theorem Inv.enter {newReqs news : List (I × NewRequestData)}
    {cachedReqs cacheds : List (CachedRequest I)} (h : Inv config run)
    (hnot : ¬ run.Scheduled reqId) (hn : 0 < n) (hstate : run.requests reqId = some state)
    (hrunning : next.status = .running)
    (htrackers : connector.requestTrackers = run.connector.requestTrackers)
    (hunfinished : run.connector.unfinishedRequests ⊆ connector.unfinishedRequests)
    (hmem : reqId ∈ connector.unfinishedRequests)
    (hspecs : ∀ id ≠ reqId, connector.loadSpecs.get? id = run.connector.loadSpecs.get? id)
    (hspecless : config.skipsLookup reqId = true → connector.loadSpecs.get? reqId = none)
    (hreported : AllReported run.reported connector)
    (hnewReqs : newReqs = run.output.scheduledNewReqs ++ news)
    (hcachedReqs : cachedReqs = run.output.scheduledCachedReqs ++ cacheds)
    (hids : news.map Prod.fst ++ cacheds.map CachedRequest.reqId = [reqId])
    (hnew : ∀ entry ∈ news, NewReady config (Function.update run.requests reqId (some next))
      (Function.update run.output.numScheduledTokens reqId n) entry)
    (hcached : ∀ entry ∈ cacheds, ∃ tracker, entry.reqId = reqId ∧
      CachedReady config (Function.update run.output.numScheduledTokens reqId n) connector entry
        next tracker) :
    Inv config { run with
      connector := connector
      requests := Function.update run.requests reqId (some next)
      output := { run.output with
        numScheduledTokens := Function.update run.output.numScheduledTokens reqId n
        scheduledNewReqs := newReqs
        scheduledCachedReqs := cachedReqs } } := by
  have hlisted : reqId ∉ run.output.reqIds := fun hmem => hnot ((h.listed reqId).mpr hmem)
  have hperm : (newReqs.map Prod.fst ++ cachedReqs.map CachedRequest.reqId).Perm
      (run.output.reqIds ++ [reqId]) := by
    rw [hnewReqs, hcachedReqs, ← hids, map_append, map_append, reqIds, append_assoc, append_assoc]
    exact (perm_append_comm_assoc _ _ _).append_left _
  obtain ⟨hnodup, hscheduled⟩ := h.listed_enter hnot hn hperm
  refine ⟨h.notRaised, fun id other hother => ?_, hnodup, hscheduled, fun entry hentry => ?_,
    fun entry hentry => ?_, fun id hskip => ?_, hreported, fun id tracker hget => ?_,
    fun id hfinished => ⟨(h.finished id hfinished).1, ?_⟩⟩
  · change Function.update run.requests reqId (some next) id = some other at hother
    change Good config connector run.arrived
      (Function.update run.output.numScheduledTokens reqId n id) id other
    by_cases heq : id = reqId
    · rw [heq, update_self] at hother
      rw [heq, update_self, ← some.inj hother]
      exact good_scheduled (h.requests reqId state hstate).arrived hrunning hn hmem
    · rw [update_of_ne heq] at hother ⊢
      exact (h.requests id other hother).congr (Finset.Subset.refl _) (by rw [htrackers])
        fun hid => hunfinished hid
  · rcases mem_append.mp (hnewReqs ▸ hentry) with hold | hnewest
    · have hne : entry.1 ≠ reqId := fun heq =>
        hlisted (heq ▸ mem_reqIds_new hold)
      exact (h.new entry hold).congr (update_of_ne hne _ _) (update_of_ne hne _ _)
    · exact hnew entry hnewest
  · rcases mem_append.mp (hcachedReqs ▸ hentry) with hold | hnewest
    · obtain ⟨other, tracker, hother, hready⟩ := h.cached entry hold
      have hne : entry.reqId ≠ reqId := fun heq =>
        hlisted (heq ▸ mem_reqIds_cached hold)
      exact ⟨other, tracker, (update_of_ne hne _ _).trans hother,
        hready.congr (update_of_ne hne _ _) (by rw [htrackers]) (hspecs _ hne)
          fun hid => hunfinished hid⟩
    · obtain ⟨tracker, heq, hready⟩ := hcached entry hnewest
      exact ⟨next, tracker, by rw [heq]; exact update_self _ _ _, hready⟩
  · by_cases heq : id = reqId
    · exact heq ▸ hspecless (heq ▸ hskip)
    · exact (hspecs id heq).trans (h.specless id hskip)
  · exact h.saved id tracker (htrackers ▸ hget)
  · have hnone := (h.finished id hfinished).2
    have hne : id ≠ reqId := by
      rintro rfl
      rw [hnone] at hstate
      cases hstate
    exact (update_of_ne hne _ _).trans hnone

theorem Inv.schedule {newBlockIds : List ℕ} (h : Inv config run)
    (hresumable : Resumable config run (.schedule reqId newBlockIds n)) :
    Inv config (run.step config (.schedule reqId newBlockIds n)) := by
  rw [step]
  cases hstate : run.requests reqId with
  | none => exact h
  | some state =>
    dsimp only
    split_ifs with hguard
    · obtain ⟨hrunning, hnot, hn, hgranted⟩ := hguard
      obtain ⟨hmock, hlist⟩ := hresumable
      have hgood := h.requests reqId state hstate
      obtain ⟨tracker, htracker, hfollows⟩ :=
        hgood.idle hrunning (Nat.eq_zero_of_not_pos hnot) hmock
      refine h.enter hnot hn hstate hrunning rfl (Finset.Subset.refl _)
        (hgood.unfinished hrunning) (fun _ _ => rfl) (h.specless reqId) h.reported
        (append_nil _).symm rfl rfl (fun _ hmem => absurd hmem not_mem_nil) ?_
      intro entry hmem
      rw [mem_singleton.mp hmem]
      refine ⟨tracker, rfl, htracker, hgood.unfinished hrunning, ?_, ?_, fun _ => ?_,
        fun hresumed => (by cases hresumed)⟩
      · rw [Function.update_self]
        exact hgranted
      · rw [Function.update_self]
        rfl
      · exact ⟨state.blockIds, hfollows, rfl,
          fun hform => hlist hform state hstate tracker htracker⟩
    · exact h

variable {blockIds : List ℕ} {canLoad : Bool}

theorem fits_of_recovers {cached : CachedLookup} {lookup : List ℕ → Option ℕ}
    {numLocalTokens matched : ℕ} {loadSpec : Option LoadSpec} (h : Inv config run)
    (hstate : run.requests reqId = some state) (hpreempted : state.status = .preempted) (hn : 0 < n)
    (hresumable : Resumable config run (.allocate reqId numLocalTokens cached lookup blockIds n))
    (hmatched : (run.connector.getNumNewMatchedTokens config reqId state.request numLocalTokens
      cached lookup).1 = some matched)
    (hgranted : Granted config (granted state (numLocalTokens + matched) blockIds) n)
    (hspec : loadSpec = ((run.connector.getNumNewMatchedTokens config reqId state.request
      numLocalTokens cached lookup).2.loadSpecs.get? reqId).map fun spec =>
        { spec with canLoad }) :
    config.mockReq reqId = false ∧
      Fits config loadSpec (granted state (numLocalTokens + matched) blockIds).request n := by
  have hcond := hresumable state hstate hpreempted hn
  rcases run.connector.getNumNewMatchedTokens_cases config reqId state.request numLocalTokens
    cached lookup with ⟨hsame, hnone | ⟨hzero, hskip⟩⟩ | ⟨hit, hhit, hskip, heq, hget⟩
  · rw [hmatched] at hnone
    cases hnone
  · rw [if_pos hskip] at hcond
    obtain ⟨hmock, hlist, hlocal⟩ := hcond
    have hmatched0 : matched = 0 := some.inj (hmatched.symm.trans hzero)
    rw [hsame, h.specless reqId hskip] at hspec
    refine ⟨hmock, fun hform => (by rw [hlist] at hform; cases hform), .inl ?_⟩
    rw [hspec, hmatched0, hlocal]
    rfl
  · rw [hskip, if_neg (by exact Bool.false_ne_true)] at hcond
    rw [reportedHit, hskip, if_neg (by exact Bool.false_ne_true)] at hhit
    have hmock : config.mockReq reqId = false := by
      rw [SchedulerConfig.skipsLookup, Bool.or_eq_false_iff] at hskip
      exact hskip.1
    have hmatched' := some.inj (hmatched.symm.trans heq)
    rw [hget] at hspec
    refine ⟨hmock, fun _ => (by rw [hspec]; rfl), ?_⟩
    have hle := hgranted.1
    rw [hmatched'] at hle ⊢
    rw [hspec]
    exact SchedulerConfig.computed_of_recovers (hcond hit hhit) hn hle

theorem matched_agrees {cached : CachedLookup} {lookup : List ℕ → Option ℕ}
    {numLocalTokens matched : ℕ} (run : SchedulerRun I) (reqId : I) (state : RequestState)
    (hmatched : (run.connector.getNumNewMatchedTokens config reqId state.request numLocalTokens
      cached lookup).1 = some matched) :
    ∀ spec, (run.ask config reqId state.request numLocalTokens cached
        lookup).connector.loadSpecs.get? reqId = some spec → matched ≠ 0 →
      (matched : ℤ) = (spec.lmcacheCachedTokens : ℤ) - spec.vllmCachedTokens -
        (if spec.lmcacheCachedTokens = state.request.numTokens then 1 else 0) := by
  intro spec hget hne
  rcases run.connector.getNumNewMatchedTokens_cases config reqId state.request numLocalTokens
    cached lookup with ⟨_, hnone | ⟨hzero, _⟩⟩ | ⟨hit, _, _, heq, hset⟩
  · rw [hmatched] at hnone
    cases hnone
  · exact absurd (some.inj (hmatched.symm.trans hzero)) hne
  · have hmatched' := some.inj (hmatched.symm.trans heq)
    rw [← some.inj (hset.symm.trans hget)]
    rw [hmatched'] at hne ⊢
    exact SchedulerConfig.matchedTokens_eq hne

theorem Inv.grant {numLocalTokens matched : ℕ} {cached : CachedLookup} {lookup : List ℕ → Option ℕ}
    (h : Inv config run)
    (hresumable : Resumable config run (.allocate reqId numLocalTokens cached lookup blockIds n))
    (hstate : run.requests reqId = some state) (hrunning : state.status ≠ .running) (hn : 0 < n)
    (hmatched : (run.connector.getNumNewMatchedTokens config reqId state.request numLocalTokens
      cached lookup).1 = some matched)
    (hgranted : Granted config (granted state (numLocalTokens + matched) blockIds) n)
    (htrackers : connector.requestTrackers = (run.ask config reqId state.request numLocalTokens
      cached lookup).connector.requestTrackers)
    (hunfinished : connector.unfinishedRequests = insert reqId (run.ask config reqId state.request
      numLocalTokens cached lookup).connector.unfinishedRequests)
    (hspecs : ∀ id ≠ reqId, connector.loadSpecs.get? id = (run.ask config reqId state.request
      numLocalTokens cached lookup).connector.loadSpecs.get? id)
    (hspec : connector.loadSpecs.get? reqId = ((run.ask config reqId state.request numLocalTokens
      cached lookup).connector.loadSpecs.get? reqId).map fun spec => { spec with canLoad }) :
    Inv config ((run.ask config reqId state.request numLocalTokens cached lookup).grant reqId
      state (granted state (numLocalTokens + matched) blockIds) n connector) := by
  have hgood := h.requests reqId state hstate
  have hnot : ¬ run.Scheduled reqId := fun hscheduled => hrunning (hgood.status hscheduled)
  have hasked := h.ask state.request numLocalTokens cached lookup hnot
  have hreported : AllReported (run.ask config reqId state.request numLocalTokens cached
      lookup).reported connector := by
    intro id spec hget
    by_cases heq : id = reqId
    · rw [heq, hspec] at hget
      obtain ⟨old, hold, rfl⟩ := map_eq_some_iff.mp hget
      exact heq ▸ hasked.reported reqId old hold
    · exact hasked.reported id spec ((hspecs id heq).symm.trans hget)
  have hspecless : config.skipsLookup reqId = true → connector.loadSpecs.get? reqId = none := by
    intro hskip
    rw [hspec, hasked.specless reqId hskip, map_none]
  have hmem : reqId ∈ connector.unfinishedRequests := by
    rw [hunfinished]
    exact Finset.mem_insert_self _ _
  have hsubset : (run.ask config reqId state.request numLocalTokens cached
      lookup).connector.unfinishedRequests ⊆ connector.unfinishedRequests := by
    rw [hunfinished]
    exact Finset.subset_insert _ _
  rw [SchedulerRun.grant]
  by_cases hwaiting : state.status = .waiting
  · refine hasked.enter hnot hn hstate rfl htrackers hsubset hmem hspecs hspecless hreported
      (if_pos hwaiting) ((if_pos hwaiting).trans (append_nil _).symm) rfl ?_
      (fun _ hentry => absurd hentry not_mem_nil)
    intro entry hentry
    rw [mem_singleton.mp hentry]
    refine ⟨_, Function.update_self _ _ _, rfl, hgood.waiting hwaiting, ?_⟩
    rw [Function.update_self]
    exact hgranted
  · have hpreempted : state.status = .preempted := by
      cases hstatus : state.status with
      | waiting => exact absurd hstatus hwaiting
      | running => exact absurd hstatus hrunning
      | preempted => rfl
    obtain ⟨hmock, hfits⟩ :=
      fits_of_recovers h hstate hpreempted hn hresumable hmatched hgranted hspec
    obtain ⟨tracker, htracker, hmm⟩ :=
      (hasked.requests reqId state hstate).preempted hpreempted hmock
    refine hasked.enter hnot hn hstate rfl htrackers hsubset hmem hspecs hspecless
      hreported ((if_neg hwaiting).trans (append_nil _).symm) (if_neg hwaiting) rfl
      (fun _ hentry => absurd hentry not_mem_nil) fun entry hentry => ?_
    rw [mem_singleton.mp hentry]
    refine ⟨tracker, rfl, by rw [htrackers]; exact htracker, hmem, ?_, ?_,
      fun hresumed => (by cases hresumed), fun _ => ⟨hmm, rfl, ?_⟩⟩
    all_goals
      rw [Function.update_self]
    · exact hgranted
    · exact hfits

theorem Inv.allocate {numLocalTokens : ℕ} {cached : CachedLookup} {lookup : List ℕ → Option ℕ}
    (h : Inv config run)
    (hresumable : Resumable config run (.allocate reqId numLocalTokens cached lookup blockIds n)) :
    Inv config (run.step config (.allocate reqId numLocalTokens cached lookup blockIds n)) := by
  rw [step]
  cases hstate : run.requests reqId with
  | none => exact h
  | some state =>
    dsimp only
    split_ifs with hrunning
    · exact h
    · have hnot : ¬ run.Scheduled reqId := fun hscheduled =>
        hrunning ((h.requests reqId state hstate).status hscheduled)
      have hasked := h.ask state.request numLocalTokens cached lookup hnot
      rw [SchedulerRun.allocate]
      dsimp only
      cases hmatched : (run.connector.getNumNewMatchedTokens config reqId state.request
          numLocalTokens cached lookup).1 with
      | none => exact hasked
      | some matched =>
        dsimp only
        split_ifs with hguard
        · obtain ⟨connector, hok, htrackers, hunfinished, hspecs, canLoad, hspec⟩ :=
            updateStateAfterAlloc_spec (matched_agrees run reqId state hmatched)
          rw [hok]
          exact h.grant hresumable hstate hrunning hguard.1 hmatched hguard.2 htrackers hunfinished
            hspecs hspec
        · exact hasked

section Build

omit [DecidableEq I] in
theorem advanced_zero (state : RequestState) : advanced 0 state = state := rfl

theorem mem_foldl_erase (s : Finset I) (reqIds : List I) (reqId : I) :
    reqId ∈ reqIds.foldl Finset.erase s ↔ reqId ∈ s ∧ reqId ∉ reqIds := by
  induction reqIds generalizing s with
  | nil => exact (and_iff_left not_mem_nil).symm
  | cons first reqIds ih =>
    rw [foldl_cons, ih, Finset.mem_erase, mem_cons, not_or]
    tauto

variable {finishedReqIds : List I}

theorem trackers_popFinished (h : reqId ∉ finishedReqIds) :
    (c.popFinished finishedReqIds).requestTrackers.get? reqId = c.requestTrackers.get? reqId := by
  rw [popFinished, Dict.get?_foldl_erase, if_neg h]

theorem unfinished_popFinished (h : reqId ∉ finishedReqIds) (hmem : reqId ∈ c.unfinishedRequests) :
    reqId ∈ (c.popFinished finishedReqIds).unfinishedRequests :=
  (mem_foldl_erase _ _ _).mpr ⟨hmem, h⟩

theorem Inv.notFinished (h : Inv config run) (hstate : run.requests reqId = some state) :
    reqId ∉ run.output.finishedReqIds := fun hmem => by
  rw [(h.finished reqId hmem).2] at hstate
  cases hstate

theorem Inv.buildConnectorMeta (h : Inv config run) :
    ∃ connector metas, run.connector.buildConnectorMeta config
        (fun reqId => (run.requests reqId).map RequestState.request) run.output =
          .ok (connector, metas) ∧
      Turns config run.reported run.requests run.output.numScheduledTokens run.output.reqIds
        (run.connector.popFinished run.output.finishedReqIds) connector metas := by
  refine buildConnectorMeta_spec h.nodup h.new fun entry hmem => ?_
  obtain ⟨state, tracker, hstate, hready⟩ := h.cached entry hmem
  have hnot := h.notFinished hstate
  exact ⟨state, tracker, hstate, hready.congr rfl (trackers_popFinished hnot) rfl
    (unfinished_popFinished hnot)⟩

theorem Inv.granted (h : Inv config run) (hstate : run.requests reqId = some state)
    (hscheduled : run.Scheduled reqId) :
    Granted config state (run.output.numScheduledTokens reqId) := by
  rcases mem_append.mp ((h.listed reqId).mp hscheduled) with hnew | hcached
  · obtain ⟨entry, hentry, rfl⟩ := mem_map.mp hnew
    obtain ⟨other, hother, _, _, hgranted⟩ := h.new entry hentry
    rw [← some.inj (hother.symm.trans hstate)]
    exact hgranted
  · obtain ⟨entry, hentry, rfl⟩ := mem_map.mp hcached
    obtain ⟨other, _, hother, hready⟩ := h.cached entry hentry
    rw [← some.inj (hother.symm.trans hstate)]
    exact hready.granted

omit [DecidableEq I] in
theorem follows_of_caught {tracker : RequestTracker}
    (h : tracker.Caught state.request state.blockIds n) (hgranted : Granted config state n) :
    tracker.Follows config.toSaveConfig (advanced n state).request state.blockIds := by
  have hlength : tracker.tokenIds.length = state.request.numComputedTokens + n := by
    rw [h.tokenIds, length_take]
    exact min_eq_left hgranted.1
  exact ⟨by rw [hlength]; exact h.tokenIds, hlength.ge, hlength.trans_le hgranted.2,
    h.allocatedBlockIds, h.mmFeatures⟩

theorem Inv.saved_popFinished (h : Inv config run) : AllSaved config.toSaveConfig run.reported
    run.emitted (run.connector.popFinished run.output.finishedReqIds) := by
  intro id tracker hget
  rw [popFinished, Dict.get?_foldl_erase] at hget
  split_ifs at hget
  exact h.saved id tracker hget

theorem Inv.good_built {metas : List (I × ReqMeta)} (h : Inv config run)
    (hturns : Turns config run.reported run.requests run.output.numScheduledTokens
      run.output.reqIds (run.connector.popFinished run.output.finishedReqIds) connector metas)
    (hstate : run.requests reqId = some state) :
    Good config connector run.arrived 0 reqId
      (advanced (run.output.numScheduledTokens reqId) state) := by
  have hgood := h.requests reqId state hstate
  have hnot := h.notFinished hstate
  have hunfinished : reqId ∈ run.connector.unfinishedRequests →
      reqId ∈ connector.unfinishedRequests := fun hmem => by
    rw [hturns.unfinished]
    exact unfinished_popFinished hnot hmem
  by_cases hscheduled : run.Scheduled reqId
  · have hrunning := hgood.status hscheduled
    refine ⟨hgood.arrived, fun hstatus => ?_, fun hstatus => hunfinished (hgood.unfinished hstatus),
      fun hpos => absurd hpos (lt_irrefl 0), fun _ _ hmock => ?_, fun hstatus => ?_⟩
    · rw [show (advanced _ state).status = state.status from rfl, hrunning] at hstatus
      cases hstatus
    · obtain ⟨other, tracker, hother, htracker, hcaught⟩ :=
        hturns.caught reqId ((h.listed reqId).mp hscheduled) hmock
      rw [← some.inj (hstate.symm.trans hother)] at hcaught
      exact ⟨tracker, htracker, follows_of_caught hcaught (h.granted hstate hscheduled)⟩
    · rw [show (advanced _ state).status = state.status from rfl, hrunning] at hstatus
      cases hstatus
  · have hunlisted : reqId ∉ run.output.reqIds := fun hmem =>
      hscheduled ((h.listed reqId).mpr hmem)
    rw [Nat.eq_zero_of_not_pos hscheduled, advanced_zero]
    rw [Nat.eq_zero_of_not_pos hscheduled] at hgood
    exact hgood.congr (Finset.Subset.refl _)
      ((hturns.trackers reqId hunlisted).trans (trackers_popFinished hnot)) hunfinished

theorem Inv.build (h : Inv config run) : Inv config (run.build config) := by
  obtain ⟨connector, metas, hok, hturns⟩ := h.buildConnectorMeta
  rw [SchedulerRun.build, hok]
  refine ⟨h.notRaised, fun id next hnext => ?_, nodup_nil,
    fun _ => ⟨fun hpos => absurd hpos (lt_irrefl 0), fun hmem => absurd hmem not_mem_nil⟩,
    fun _ hmem => absurd hmem not_mem_nil, fun _ hmem => absurd hmem not_mem_nil,
    fun id hskip => ?_, AllReported.mono h.reported hturns.popped,
    hturns.saved run.emitted h.reported h.saved_popFinished,
    fun _ hmem => absurd hmem not_mem_nil⟩
  · obtain ⟨state, hstate, rfl⟩ := map_eq_some_iff.mp hnext
    exact h.good_built hturns hstate
  · refine eq_none_iff_forall_ne_some.mpr fun spec hget => ?_
    have hold := hturns.popped id spec hget
    rw [show (run.connector.popFinished run.output.finishedReqIds).loadSpecs.get? id =
      run.connector.loadSpecs.get? id from rfl, h.specless id hskip] at hold
    cases hold

theorem Inv.followsVllm (h : Inv config run) : FollowsVllm config run (run.build config) := by
  obtain ⟨connector, metas, hok, hturns⟩ := h.buildConnectorMeta
  rw [SchedulerRun.build, hok]
  refine ⟨fun reqId state hstate hscheduled hmock => ?_, hturns.mapped⟩
  obtain ⟨other, tracker, hother, htracker, hcaught⟩ :=
    hturns.caught reqId ((h.listed reqId).mp hscheduled) hmock
  rw [← some.inj (hstate.symm.trans hother)] at hcaught
  exact ⟨tracker, htracker, hcaught.tokenIds⟩

end Build

theorem Inv.exec (h : Inv config run) (event : SchedulerEvent I)
    (hresumable : Resumable config run event) : Inv config (exec config run event) := by
  rw [SchedulerRun.exec, if_neg (by rw [h.notRaised]; exact Bool.false_ne_true)]
  cases event with
  | arrive reqId request => exact h.arrive request
  | allocate reqId numLocalTokens cached lookup blockIds numNewTokens => exact h.allocate hresumable
  | schedule reqId newBlockIds numNewTokens => exact h.schedule hresumable
  | buildConnectorMeta => exact h.build
  | append reqId tokenIds => exact h.alter fun _ _ => good_appended
  | rollBack reqId numComputedTokens => exact h.alter fun _ _ => good_rolledBack
  | preempt reqId => exact h.alter fun _ _ => good_preempted
  | finish reqId => exact h.finish

theorem Inv.follows (h : Inv config run) (event : SchedulerEvent I)
    (hresumable : Resumable config run event) : Follows config run event := by
  have hnext := h.exec event hresumable
  refine ⟨hnext.notRaised, fun heq => ?_, hnext.saved⟩
  rw [heq, SchedulerRun.exec, if_neg (by rw [h.notRaised]; exact Bool.false_ne_true)]
  exact h.followsVllm

theorem follows_of_resumable (config : SchedulerConfig I) (events : List (SchedulerEvent I))
    (h : Along (exec config) (Resumable config) start events) :
    Along (exec config) (Follows config) start events :=
  along_of_invariant (I := Inv config) (fun _ event hinv hstep => hinv.exec event hstep)
    (fun _ event hinv hstep => hinv.follows event hstep) (inv_start config) h

theorem four_pos : 0 < 4 := succ_pos 3

def fourTokenConfig : SchedulerConfig ℕ where
  blockSize := 4
  chunkSize := 4
  discardPartialChunks := false
  saveDecodeCache := false
  chunkSizePos := four_pos
  blockSizePos := four_pos
  kvRole := .both
  supportsProducerReuse := false
  forceSkipSave := false
  priorityLimit := none
  minRetrieveTokens := 0
  useLayerwise := false
  fullHitTailRecompute := false
  skipLastNTokens := 0
  mockReq := fun _ => false
  cachedReqsAreList := false

def eightTokens : VllmRequest := ⟨[1, 2, 3, 4, 5, 6, 7, 8], [], 0, [], false, 0, false⟩

def resumedRun : List (SchedulerEvent ℕ) :=
  [.arrive 0 eightTokens, .allocate 0 0 .notCached (fun _ => some 0) [7] 4, .buildConnectorMeta,
    .schedule 0 [9] 4, .buildConnectorMeta, .append 0 [9], .preempt 0,
    .allocate 0 0 .notCached (fun _ => some 8) [2, 3, 5] 1, .buildConnectorMeta, .rollBack 0 4,
    .schedule 0 [] 5, .buildConnectorMeta]

theorem follows_resumedRun :
    Along (exec fourTokenConfig) (Follows fourTokenConfig) start resumedRun ∧
      ((final (exec fourTokenConfig) start resumedRun).connector.requestTrackers.get? 0).map
        RequestTracker.tokenIds = some [1, 2, 3, 4, 5, 6, 7, 8, 9] :=
  ⟨follows_of_resumable fourTokenConfig resumedRun (by decide +kernel), by decide +kernel⟩

def fullHitRun : List (SchedulerEvent ℕ) :=
  [.arrive 0 eightTokens, .allocate 0 0 .notCached (fun _ => some 0) [7] 4, .buildConnectorMeta,
    .preempt 0, .allocate 0 0 .notCached (fun _ => some 8) [2, 3] 1, .buildConnectorMeta]

theorem not_follows_fullHitRun :
    ¬ Along (exec fourTokenConfig) (Follows fourTokenConfig) start fullHitRun := by
  intro h
  have hraised : (final (exec fourTokenConfig) start fullHitRun).raised = true := by
    decide +kernel
  have hnot : (final (exec fourTokenConfig) start fullHitRun).raised = false :=
    h.2.2.2.2.2.1.notRaised
  rw [hraised] at hnot
  cases hnot

end SchedulerRun

end LMCache
