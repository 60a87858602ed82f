import LMCache.Foundations.Dict
import LMCache.Foundations.Execution
import Mathlib.Data.List.TakeWhile

namespace LMCache

open List Option Execution Dict

structure PrefetchHandle where
  requestId : Option ℕ
  l1PrefixHitCount : ℕ
  totalRequestedKeys : ℕ
deriving DecidableEq, Repr

structure PrefetchSpanJob (K : Type) where
  handle : PrefetchHandle
  chunkCount : ℕ
  keys : List K
deriving DecidableEq, Repr

structure PrefetchJob (K : Type) where
  spans : List (PrefetchSpanJob K)
  worldSize : ℕ
  worldSizePos : 0 < worldSize
deriving DecidableEq

structure SpanRequest (K : Type) where
  chunkCount : ℕ
  keys : List K
  l1PrefixHitCount : ℕ
  submitsL2 : Bool

structure PrefetchJobs (K : Type) where
  nextRequestId : ℕ
  completedResults : Dict ℕ ℕ
  nextPrefetchJobId : ℕ
  prefetchJobs : Dict ℕ (PrefetchJob K)

def countLeading : List (ℕ × ℕ) → ℕ
  | [] => 0
  | (chunkCount, hitCount) :: rest =>
      hitCount + if hitCount < chunkCount then 0 else countLeading rest

namespace PrefetchJobs

variable {K : Type}

def init : PrefetchJobs K := ⟨0, .empty, 0, .empty⟩

variable (s : PrefetchJobs K)

def submitSpan (span : SpanRequest K) : PrefetchSpanJob K × PrefetchJobs K :=
  let handle := fun requestId =>
    { requestId := requestId
      l1PrefixHitCount := span.l1PrefixHitCount
      totalRequestedKeys := span.keys.length : PrefetchHandle }
  if span.submitsL2 then
    (⟨handle (some s.nextRequestId), span.chunkCount, span.keys⟩,
      { s with nextRequestId := s.nextRequestId + 1 })
  else (⟨handle none, span.chunkCount, span.keys⟩, s)

def submitSpans : List (SpanRequest K) → PrefetchJobs K → List (PrefetchSpanJob K) × PrefetchJobs K
  | [], s => ([], s)
  | span :: spans, s =>
      let (job, s) := s.submitSpan span
      let (jobs, s) := submitSpans spans s
      (job :: jobs, s)

def registerPrefetchJob (job : PrefetchJob K) : ℕ × PrefetchJobs K :=
  (s.nextPrefetchJobId,
    { s with
      nextPrefetchJobId := s.nextPrefetchJobId + 1
      prefetchJobs := s.prefetchJobs.set s.nextPrefetchJobId job })

def completeRequest (requestId prefixHits : ℕ) : PrefetchJobs K :=
  { s with completedResults := s.completedResults.set requestId prefixHits }

def queryPrefetchResult (results : Dict ℕ ℕ) (requestId : ℕ) : Option ℕ × Dict ℕ ℕ :=
  (results.get? requestId, results.erase requestId)

def queryHandle (results : Dict ℕ ℕ) (handle : PrefetchHandle) : Option ℕ × Dict ℕ ℕ :=
  match handle.requestId with
  | none => (some handle.l1PrefixHitCount, results)
  | some requestId =>
      let (l2Result, results) := queryPrefetchResult results requestId
      (l2Result.map (handle.l1PrefixHitCount + ·), results)

def querySpans (worldSize : ℕ) :
    List (PrefetchSpanJob K) → Dict ℕ ℕ → Option (List (ℕ × ℕ)) × Dict ℕ ℕ
  | [], results => (some [], results)
  | span :: spans, results =>
      match queryHandle results span.handle with
      | (none, results) => (none, results)
      | (some foundCount, results) =>
          let (spanHits, results) := querySpans worldSize spans results
          (spanHits.map ((span.chunkCount, min (foundCount / worldSize) span.chunkCount) :: ·), results)

def queryPrefetchStatus (prefetchJobId : ℕ) : Option ℕ × PrefetchJobs K :=
  match s.prefetchJobs.get? prefetchJobId with
  | none => (none, s)
  | some job =>
      match querySpans job.worldSize job.spans s.completedResults with
      | (none, results) => (none, { s with completedResults := results })
      | (some spanHits, results) =>
          (some (countLeading spanHits),
            { s with
              completedResults := results
              prefetchJobs := s.prefetchJobs.erase prefetchJobId })

variable {worldSize : ℕ}

def requestIds (spans : List (PrefetchSpanJob K)) : List ℕ :=
  spans.filterMap (fun span => span.handle.requestId)

variable (completed : Dict ℕ ℕ)

def spanHits (worldSize : ℕ) (span : PrefetchSpanJob K) : ℕ :=
  let l2Result := (span.handle.requestId.bind completed.get?).getD 0
  min ((span.handle.l1PrefixHitCount + l2Result) / worldSize) span.chunkCount

def chunksFound (job : PrefetchJob K) : List Bool :=
  job.spans.flatMap (fun span =>
    let hits := spanHits completed job.worldSize span
    replicate hits true ++ replicate (span.chunkCount - hits) false)

def leadingFound (chunks : List Bool) : ℕ := (chunks.takeWhile id).length

theorem leadingFound_replicate_append (n : ℕ) (chunks : List Bool) :
    leadingFound (replicate n true ++ chunks) = n + leadingFound chunks := by
  induction n with
  | zero => simp
  | succ n ih =>
    rw [replicate_succ, cons_append, leadingFound, takeWhile_cons_of_pos rfl,
      length_cons, ← leadingFound, ih]
    omega

theorem countLeading_eq (job : PrefetchJob K) :
    countLeading (job.spans.map (fun span =>
      (span.chunkCount, spanHits completed job.worldSize span))) =
        leadingFound (chunksFound completed job) := by
  rw [chunksFound]
  induction job.spans with
  | nil => rfl
  | cons span spans ih =>
    rw [map_cons, countLeading, flatMap_cons, append_assoc, leadingFound_replicate_append]
    have hle : spanHits completed job.worldSize span ≤ span.chunkCount := Nat.min_le_right _ _
    split_ifs with hlt
    · obtain ⟨n, hn⟩ : ∃ n, span.chunkCount - spanHits completed job.worldSize span = n + 1 :=
        ⟨_, (Nat.succ_pred_eq_of_pos (by omega)).symm⟩
      rw [hn, replicate_succ, cons_append, leadingFound,
        takeWhile_cons_of_neg (by simp), length_nil]
    · have hzero : span.chunkCount - spanHits completed job.worldSize span = 0 := by omega
      rw [hzero, replicate_zero, nil_append, ih]

section Walk

variable {span : PrefetchSpanJob K} {spans : List (PrefetchSpanJob K)} {completed results : Dict ℕ ℕ}
  {r : ℕ}

def spanEntry (worldSize : ℕ) (span : PrefetchSpanJob K) (l2Result : ℕ) : ℕ × ℕ :=
  (span.chunkCount, min ((span.handle.l1PrefixHitCount + l2Result) / worldSize) span.chunkCount)

theorem querySpans_local (h : span.handle.requestId = none) :
    querySpans worldSize (span :: spans) results =
      ((querySpans worldSize spans results).1.map (spanEntry worldSize span 0 :: ·),
        (querySpans worldSize spans results).2) := by
  simp only [querySpans, queryHandle, h]
  rfl

theorem querySpans_pending (h : span.handle.requestId = some r) (hr : results.get? r = none) :
    querySpans worldSize (span :: spans) results = (none, results.erase r) := by
  simp only [querySpans, queryHandle, h, queryPrefetchResult, hr, map_none]

theorem querySpans_ready {l2Result : ℕ} (h : span.handle.requestId = some r)
    (hr : results.get? r = some l2Result) :
    querySpans worldSize (span :: spans) results =
      ((querySpans worldSize spans (results.erase r)).1.map (spanEntry worldSize span l2Result :: ·),
        (querySpans worldSize spans (results.erase r)).2) := by
  simp only [querySpans, queryHandle, h, queryPrefetchResult, hr, map_some]
  rfl

theorem requestIds_local (h : span.handle.requestId = none) :
    requestIds (span :: spans) = requestIds spans := filterMap_cons_none h

theorem requestIds_asked (h : span.handle.requestId = some r) :
    requestIds (span :: spans) = r :: requestIds spans := filterMap_cons_some h

theorem querySpans_frame (hr : r ∉ requestIds spans) :
    (querySpans worldSize spans results).2.get? r = results.get? r := by
  induction spans generalizing results with
  | nil => rfl
  | cons span spans ih =>
    cases hid : span.handle.requestId with
    | none =>
      rw [requestIds_local hid] at hr
      rw [querySpans_local hid]
      exact ih hr
    | some r' =>
      rw [requestIds_asked hid, mem_cons, not_or] at hr
      have herase : (results.erase r').get? r = results.get? r := by
        rw [get?_erase, if_neg fun h => hr.1 h.symm]
      cases hres : results.get? r' with
      | none => rw [querySpans_pending hid hres, herase]
      | some l2Result => rw [querySpans_ready hid hres, ih hr.2, herase]

theorem querySpans_shrinks (results : Dict ℕ ℕ) (r : ℕ) :
    (querySpans worldSize spans results).2.get? r = none ∨
      (querySpans worldSize spans results).2.get? r = results.get? r := by
  induction spans generalizing results with
  | nil => exact .inr rfl
  | cons span spans ih =>
    cases hid : span.handle.requestId with
    | none =>
      rw [querySpans_local hid]
      exact ih results
    | some r' =>
      have herase : (results.erase r').get? r = none ∨
          (results.erase r').get? r = results.get? r := by
        rw [get?_erase]
        split_ifs
        · exact .inl rfl
        · exact .inr rfl
      cases hres : results.get? r' with
      | none => rwa [querySpans_pending hid hres]
      | some l2Result =>
        rw [querySpans_ready hid hres]
        rcases ih (results.erase r') with h | h
        · exact .inl h
        · rw [h]
          exact herase

theorem querySpans_absent (hr : results.get? r = none) :
    (querySpans worldSize spans results).2.get? r = none :=
  (querySpans_shrinks results r).elim id fun h => h.trans hr

theorem querySpans_none (hmem : r ∈ requestIds spans) (hr : results.get? r = none) :
    (querySpans worldSize spans results).1 = none := by
  induction spans generalizing results with
  | nil => simp [requestIds] at hmem
  | cons span spans ih =>
    cases hid : span.handle.requestId with
    | none =>
      rw [requestIds_local hid] at hmem
      rw [querySpans_local hid, ih hmem hr, map_none]
    | some r' =>
      rw [requestIds_asked hid, mem_cons] at hmem
      cases hres : results.get? r' with
      | none => rw [querySpans_pending hid hres]
      | some l2Result =>
        have hne : r ≠ r' := by
          rintro rfl
          rw [hr] at hres
          simp at hres
        have herase : (results.erase r').get? r = none := by
          rw [get?_erase, hr, ite_self]
        rw [querySpans_ready hid hres, ih (hmem.resolve_left hne) herase, map_none]

theorem querySpans_all (hnodup : (requestIds spans).Nodup)
    (h : ∀ r ∈ requestIds spans, ∃ l2Result, completed.get? r = some l2Result ∧
      results.get? r = some l2Result) :
    (querySpans worldSize spans results).1 =
      some (spans.map (fun span => (span.chunkCount, spanHits completed worldSize span))) := by
  induction spans generalizing results with
  | nil => rfl
  | cons span spans ih =>
    cases hid : span.handle.requestId with
    | none =>
      rw [requestIds_local hid] at h hnodup
      rw [querySpans_local hid, ih hnodup h, map_some, map_cons, spanEntry, spanHits, hid]
      rfl
    | some r =>
      rw [requestIds_asked hid] at h hnodup
      obtain ⟨hnot, hrest⟩ := nodup_cons.mp hnodup
      obtain ⟨l2Result, hcompleted, hres⟩ := h r mem_cons_self
      have herase : ∀ r' ∈ requestIds spans, ∃ l2Result, completed.get? r' = some l2Result ∧
          (results.erase r).get? r' = some l2Result := by
        intro r' hr'
        have hne : ¬ r = r' := by
          rintro rfl
          exact hnot hr'
        rw [get?_erase, if_neg hne]
        exact h r' (mem_cons_of_mem _ hr')
      rw [querySpans_ready hid hres, ih hrest herase, map_some, map_cons, spanEntry,
        spanHits, hid, bind_some, hcompleted, getD_some]

theorem querySpans_first {rs : List ℕ} (hids : requestIds spans = r :: rs) :
    (querySpans worldSize spans results).2.get? r = none ∧
      (results.get? r = none →
        ∀ r', (querySpans worldSize spans results).2.get? r' = results.get? r') := by
  induction spans generalizing results with
  | nil => simp [requestIds] at hids
  | cons span spans ih =>
    cases hid : span.handle.requestId with
    | none =>
      rw [requestIds_local hid] at hids
      rw [querySpans_local hid]
      exact ih hids
    | some r' =>
      rw [requestIds_asked hid, cons.injEq] at hids
      obtain ⟨rfl, _⟩ := hids
      have herase : (results.erase r').get? r' = none := by rw [get?_erase, if_pos rfl]
      cases hres : results.get? r' with
      | none =>
        rw [querySpans_pending hid hres]
        refine ⟨herase, fun _ r'' => ?_⟩
        rw [get?_erase]
        split_ifs with heq
        · exact heq ▸ hres.symm
        · rfl
      | some l2Result =>
        rw [querySpans_ready hid hres]
        exact ⟨querySpans_absent herase, fun h => by simp at h⟩

end Walk

theorem submitSpans_spec (spans : List (SpanRequest K)) (e : PrefetchJobs K) :
    (submitSpans spans e).2.completedResults = e.completedResults ∧
      (submitSpans spans e).2.prefetchJobs = e.prefetchJobs ∧
      (submitSpans spans e).2.nextPrefetchJobId = e.nextPrefetchJobId ∧
      e.nextRequestId ≤ (submitSpans spans e).2.nextRequestId ∧
      (requestIds (submitSpans spans e).1).Nodup ∧
      ∀ r ∈ requestIds (submitSpans spans e).1,
        e.nextRequestId ≤ r ∧ r < (submitSpans spans e).2.nextRequestId := by
  induction spans generalizing e with
  | nil => exact ⟨rfl, rfl, rfl, le_rfl, nodup_nil, fun r hr => by simp [submitSpans, requestIds] at hr⟩
  | cons span spans ih =>
    cases hl2 : span.submitsL2 with
    | false =>
      have hsubmit : (e.submitSpan span).2 = e := by simp [submitSpan, hl2]
      have hlocal : (e.submitSpan span).1.handle.requestId = none := by simp [submitSpan, hl2]
      simp only [submitSpans, requestIds_local hlocal, hsubmit]
      exact ih e
    | true =>
      have hasked : (e.submitSpan span).1.handle.requestId = some e.nextRequestId := by
        simp [submitSpan, hl2]
      obtain ⟨hresults, hjobs, hnext, hle, hnodup, hrange⟩ := ih (e.submitSpan span).2
      have hsubmit : (e.submitSpan span).2 = { e with nextRequestId := e.nextRequestId + 1 } := by
        simp [submitSpan, hl2]
      simp only [submitSpans, requestIds_asked hasked]
      rw [hsubmit] at hresults hjobs hnext hle hnodup hrange ⊢
      refine ⟨hresults, hjobs, hnext, by simp only at hle; omega, nodup_cons.mpr ⟨fun hmem => ?_, hnodup⟩,
        fun r hr => ?_⟩
      · have := (hrange _ hmem).1
        simp only at this
        omega
      · rcases mem_cons.mp hr with rfl | hr
        · simp only at hle
          omega
        · have := hrange r hr
          simp only at this
          omega

variable (e : PrefetchJobs K)

theorem queryPrefetchStatus_cases (j : ℕ) :
    e.prefetchJobs.get? j = none ∧ e.queryPrefetchStatus j = (none, e) ∨
    ∃ job, e.prefetchJobs.get? j = some job ∧
      (e.queryPrefetchStatus j).2.completedResults =
        (querySpans job.worldSize job.spans e.completedResults).2 ∧
      (e.queryPrefetchStatus j).2.nextRequestId = e.nextRequestId ∧
      (e.queryPrefetchStatus j).2.nextPrefetchJobId = e.nextPrefetchJobId ∧
      ((querySpans job.worldSize job.spans e.completedResults).1 = none ∧
          (e.queryPrefetchStatus j).1 = none ∧
          (e.queryPrefetchStatus j).2.prefetchJobs = e.prefetchJobs ∨
        ∃ spanHits, (querySpans job.worldSize job.spans e.completedResults).1 = some spanHits ∧
          (e.queryPrefetchStatus j).1 = some (countLeading spanHits) ∧
          (e.queryPrefetchStatus j).2.prefetchJobs = e.prefetchJobs.erase j) := by
  simp only [queryPrefetchStatus]
  cases hjob : e.prefetchJobs.get? j with
  | none => exact .inl ⟨rfl, rfl⟩
  | some job =>
    refine .inr ⟨job, rfl, ?_⟩
    dsimp only
    cases hq : querySpans job.worldSize job.spans e.completedResults with
    | mk spanHits results =>
      cases spanHits with
      | none => exact ⟨rfl, rfl, rfl, .inl ⟨rfl, rfl, rfl⟩⟩
      | some spanHits => exact ⟨rfl, rfl, rfl, .inr ⟨spanHits, rfl, rfl, rfl⟩⟩

theorem poll_completedResults (j r : ℕ) :
    (e.queryPrefetchStatus j).2.completedResults.get? r = none ∨
      (e.queryPrefetchStatus j).2.completedResults.get? r = e.completedResults.get? r := by
  rcases e.queryPrefetchStatus_cases j with ⟨_, hsame⟩ | ⟨job, _, hresults, _⟩
  · rw [hsame]
    exact .inr rfl
  · rw [hresults]
    exact querySpans_shrinks _ r

theorem poll_prefetchJobs (j j' : ℕ) :
    (e.queryPrefetchStatus j).2.prefetchJobs.get? j' = e.prefetchJobs.get? j' ∨
      j = j' ∧ (e.queryPrefetchStatus j).2.prefetchJobs.get? j' = none := by
  rcases e.queryPrefetchStatus_cases j with ⟨_, hsame⟩ | ⟨job, _, _, _, _, ⟨_, _, hjobs⟩ | ⟨_, _, _, hjobs⟩⟩
  · rw [hsame]
    exact .inl rfl
  · rw [hjobs]
    exact .inl rfl
  · rw [hjobs, get?_erase]
    split_ifs with h
    · exact .inr ⟨h, rfl⟩
    · exact .inl rfl

variable {job : PrefetchJob K}

theorem poll_registered {e : PrefetchJobs K} {j j' : ℕ}
    (h : (e.queryPrefetchStatus j).2.prefetchJobs.get? j' = some job) :
    e.prefetchJobs.get? j' = some job := by
  rcases poll_prefetchJobs e j j' with hsame | ⟨_, hnone⟩
  · exact hsame.symm.trans h
  · rw [hnone] at h
    simp at h

theorem poll_counters (j : ℕ) :
    (e.queryPrefetchStatus j).2.nextRequestId = e.nextRequestId ∧
      (e.queryPrefetchStatus j).2.nextPrefetchJobId = e.nextPrefetchJobId := by
  rcases e.queryPrefetchStatus_cases j with ⟨_, hsame⟩ | ⟨job, _, _, hrequest, hjob, _⟩
  · rw [hsame]
    exact ⟨rfl, rfl⟩
  · exact ⟨hrequest, hjob⟩

theorem poll_none {e : PrefetchJobs K} {j : ℕ} (hjob : e.prefetchJobs.get? j = some job) {r : ℕ}
    (hr : r ∈ requestIds job.spans) (hres : e.completedResults.get? r = none) :
    (e.queryPrefetchStatus j).1 = none ∧
      (e.queryPrefetchStatus j).2.prefetchJobs.get? j = some job ∧
      (e.queryPrefetchStatus j).2.completedResults =
        (querySpans job.worldSize job.spans e.completedResults).2 := by
  rcases e.queryPrefetchStatus_cases j with ⟨hnone, _⟩ |
    ⟨job', hjob', hresults, _, _, ⟨_, hquery, hjobs⟩ | ⟨spanHits, hwalk, _, _⟩⟩
  · rw [hjob] at hnone
    simp at hnone
  · obtain rfl := some.inj (hjob.symm.trans hjob')
    exact ⟨hquery, hjobs ▸ hjob, hresults⟩
  · obtain rfl := some.inj (hjob.symm.trans hjob')
    rw [querySpans_none hr hres] at hwalk
    simp at hwalk

end PrefetchJobs

structure JobHistory (K : Type) where
  engine : PrefetchJobs K
  completed : Dict ℕ ℕ

inductive JobEvent (K : Type) where
  | lookup (spans : List (SpanRequest K)) (worldSize : ℕ) (worldSizePos : 0 < worldSize)
  | complete (requestId prefixHits : ℕ)
  | poll (prefetchJobId : ℕ)

namespace JobHistory

open PrefetchJobs

variable {K : Type}

def init : JobHistory K := ⟨PrefetchJobs.init, .empty⟩

variable (s : JobHistory K)

def exec : JobEvent K → JobHistory K
  | .lookup spans worldSize worldSizePos =>
      let (spans, engine) := submitSpans spans s.engine
      { s with engine := (engine.registerPrefetchJob ⟨spans, worldSize, worldSizePos⟩).2 }
  | .complete requestId prefixHits =>
      { engine := s.engine.completeRequest requestId prefixHits
        completed := s.completed.set requestId prefixHits }
  | .poll prefetchJobId => { s with engine := (s.engine.queryPrefetchStatus prefetchJobId).2 }

def Admissible : JobEvent K → Prop
  | .complete requestId _ =>
      requestId < s.engine.nextRequestId ∧ s.completed.get? requestId = none
  | _ => True

def AllCompleted (job : PrefetchJob K) : Prop :=
  ∀ r ∈ requestIds job.spans, s.completed.contains r = true

def BeforeCompletion (j : ℕ) (s : JobHistory K) : JobEvent K → Prop
  | .poll j' => j' = j → ∀ job ∈ s.engine.prefetchJobs.get? j, ¬ AllCompleted s job
  | _ => True

def FirstPending (j : ℕ) (s : JobHistory K) : JobEvent K → Prop
  | .poll j' => j' = j → ∀ job ∈ s.engine.prefetchJobs.get? j,
      ∀ r ∈ (requestIds job.spans).head?, s.completed.get? r = none
  | _ => True

instance (s : JobHistory K) (ev : JobEvent K) : Decidable (Admissible s ev) :=
  match ev with
  | .complete _ _ => inferInstanceAs (Decidable (_ ∧ _))
  | .lookup _ _ _ | .poll _ => .isTrue trivial

instance (s : JobHistory K) (job : PrefetchJob K) : Decidable (AllCompleted s job) :=
  inferInstanceAs (Decidable (∀ r ∈ requestIds job.spans, _))

instance (j : ℕ) (s : JobHistory K) (ev : JobEvent K) : Decidable (BeforeCompletion j s ev) :=
  match ev with
  | .poll j' => inferInstanceAs (Decidable (j' = j → ∀ job ∈ _, ¬ AllCompleted s job))
  | .lookup _ _ _ | .complete _ _ => .isTrue trivial

structure Tracked (s : JobHistory K) : Prop where
  unregistered : ∀ j, s.engine.nextPrefetchJobId ≤ j → s.engine.prefetchJobs.get? j = none
  issued : ∀ j job, s.engine.prefetchJobs.get? j = some job →
    ∀ r ∈ requestIds job.spans, r < s.engine.nextRequestId
  nodup : ∀ j job, s.engine.prefetchJobs.get? j = some job → (requestIds job.spans).Nodup
  disjoint : ∀ j j' job job', s.engine.prefetchJobs.get? j = some job →
    s.engine.prefetchJobs.get? j' = some job' → j ≠ j' →
    ∀ r ∈ requestIds job.spans, r ∉ requestIds job'.spans
  completedIssued : ∀ r prefixHits, s.completed.get? r = some prefixHits → r < s.engine.nextRequestId
  answered : ∀ r prefixHits, s.engine.completedResults.get? r = some prefixHits →
    s.completed.get? r = some prefixHits

def Intact (j : ℕ) (s : JobHistory K) : Prop :=
  ∀ job, s.engine.prefetchJobs.get? j = some job → ∀ r ∈ requestIds job.spans,
    s.engine.completedResults.get? r = s.completed.get? r

def Lost (j : ℕ) (s : JobHistory K) : Prop :=
  ∃ job, s.engine.prefetchJobs.get? j = some job ∧ ∃ r ∈ requestIds job.spans,
    s.completed.get? r ≠ none ∧ s.engine.completedResults.get? r = none

variable {s : JobHistory K}

theorem Tracked.absent (h : Tracked s) {r : ℕ} (hr : s.completed.get? r = none) :
    s.engine.completedResults.get? r = none := by
  cases hres : s.engine.completedResults.get? r with
  | none => rfl
  | some prefixHits =>
    rw [h.answered r prefixHits hres] at hr
    simp at hr

theorem Tracked.poll (h : Tracked s) (j : ℕ) : Tracked (s.exec (.poll j)) := by
  obtain ⟨hrequest, hjobId⟩ := poll_counters s.engine j
  refine ⟨fun j' hj' => ?_, fun j' job hjob r hr => ?_, fun j' job hjob => ?_,
    fun j₁ j₂ job₁ job₂ h₁ h₂ => ?_, fun r hits hr => ?_, fun r hits hr => ?_⟩
  · change (s.engine.queryPrefetchStatus j).2.nextPrefetchJobId ≤ j' at hj'
    rw [hjobId] at hj'
    rcases poll_prefetchJobs s.engine j j' with hsame | ⟨_, hnone⟩
    · exact hsame.trans (h.unregistered j' hj')
    · exact hnone
  · exact hrequest.symm ▸ h.issued j' job (poll_registered hjob) r hr
  · exact h.nodup j' job (poll_registered hjob)
  · exact h.disjoint j₁ j₂ job₁ job₂ (poll_registered h₁) (poll_registered h₂)
  · exact hrequest.symm ▸ h.completedIssued r hits hr
  · rcases poll_completedResults s.engine j r with hnone | hsame
    · exact absurd (hnone.symm.trans hr) (by simp)
    · exact h.answered r hits (hsame.symm.trans hr)

theorem Tracked.complete (h : Tracked s) {r₀ prefixHits : ℕ}
    (hissued : r₀ < s.engine.nextRequestId) : Tracked (s.exec (.complete r₀ prefixHits)) := by
  refine ⟨h.unregistered, h.issued, h.nodup, h.disjoint, fun r hits hr => ?_, fun r hits hr => ?_⟩
  · change (s.completed.set r₀ prefixHits).get? r = _ at hr
    rw [get?_set] at hr
    split_ifs at hr with heq
    · exact heq ▸ hissued
    · exact h.completedIssued r hits hr
  · change (s.engine.completedResults.set r₀ prefixHits).get? r = _ at hr
    change (s.completed.set r₀ prefixHits).get? r = _
    rw [get?_set] at hr ⊢
    split_ifs at hr ⊢
    · exact hr
    · exact h.answered r hits hr

theorem lookup_registered {spans : List (SpanRequest K)} {worldSize : ℕ}
    {worldSizePos : 0 < worldSize} (j : ℕ) :
    (s.exec (.lookup spans worldSize worldSizePos)).engine.prefetchJobs.get? j =
      if s.engine.nextPrefetchJobId = j then
        some ⟨(submitSpans spans s.engine).1, worldSize, worldSizePos⟩
      else s.engine.prefetchJobs.get? j := by
  obtain ⟨_, hjobs, hnext, _⟩ := submitSpans_spec spans s.engine
  simp only [exec, registerPrefetchJob, get?_set, hjobs, hnext]

theorem Tracked.lookup (h : Tracked s) (spans : List (SpanRequest K)) {worldSize : ℕ}
    (worldSizePos : 0 < worldSize) :
    Tracked (s.exec (.lookup spans worldSize worldSizePos)) := by
  obtain ⟨hresults, hjobs, hnext, hle, hnodup, hrange⟩ := submitSpans_spec spans s.engine
  have hissued : ∀ j job, s.engine.prefetchJobs.get? j = some job → ∀ r ∈ requestIds job.spans,
      r ∉ requestIds (submitSpans spans s.engine).1 := by
    intro j job hjob r hr hmem
    have := h.issued j job hjob r hr
    have := (hrange r hmem).1
    omega
  refine ⟨fun j hj => ?_, fun j job hjob r hr => ?_, fun j job hjob => ?_,
    fun j₁ j₂ job₁ job₂ h₁ h₂ hne r hr => ?_, fun r hits hr => ?_, fun r hits hr => ?_⟩
  · change (submitSpans spans s.engine).2.nextPrefetchJobId + 1 ≤ j at hj
    rw [hnext] at hj
    rw [lookup_registered, if_neg (by omega)]
    exact h.unregistered j (by omega)
  · rw [lookup_registered] at hjob
    split_ifs at hjob
    · obtain rfl := some.inj hjob
      exact (hrange r hr).2
    · exact (h.issued j job hjob r hr).trans_le hle
  · rw [lookup_registered] at hjob
    split_ifs at hjob
    · obtain rfl := some.inj hjob
      exact hnodup
    · exact h.nodup j job hjob
  · rw [lookup_registered] at h₁ h₂
    split_ifs at h₁ h₂ with hj₁ hj₂ hj₂
    · exact absurd (hj₁.symm.trans hj₂) hne
    · obtain rfl := some.inj h₁
      exact fun hmem => hissued j₂ job₂ h₂ r hmem hr
    · obtain rfl := some.inj h₂
      exact hissued j₁ job₁ h₁ r hr
    · exact h.disjoint j₁ j₂ job₁ job₂ h₁ h₂ hne r hr
  · exact (h.completedIssued r hits hr).trans_le hle
  · change (submitSpans spans s.engine).2.completedResults.get? r = _ at hr
    rw [hresults] at hr
    exact h.answered r hits hr

theorem tracked_exec (s : JobHistory K) (ev : JobEvent K) (h : Tracked s) (hev : Admissible s ev) :
    Tracked (s.exec ev) := by
  cases ev with
  | lookup spans worldSize worldSizePos => exact h.lookup spans worldSizePos
  | complete r prefixHits => exact h.complete hev.1
  | poll j => exact h.poll j

variable {job : PrefetchJob K}

theorem exists_pending (h : ¬ AllCompleted s job) :
    ∃ r ∈ requestIds job.spans, s.completed.get? r = none := by
  simp only [AllCompleted, not_forall] at h
  obtain ⟨r, hr, hpending⟩ := h
  refine ⟨r, hr, ?_⟩
  rw [Dict.get?_eq_none_iff, ← Dict.contains_iff]
  exact hpending

variable {j : ℕ} {ev : JobEvent K}

theorem Lost.stays (ht : Tracked s) (h : Lost j s) (hev : Admissible s ev) :
    Lost j (s.exec ev) := by
  obtain ⟨job, hjob, r, hr, hcompleted, hres⟩ := h
  cases ev with
  | lookup spans worldSize worldSizePos =>
    refine ⟨job, ?_, r, hr, hcompleted, ?_⟩
    · have hne : ¬ s.engine.nextPrefetchJobId = j := by
        rintro rfl
        rw [ht.unregistered _ le_rfl] at hjob
        simp at hjob
      rw [lookup_registered, if_neg hne]
      exact hjob
    · obtain ⟨hresults, _⟩ := submitSpans_spec spans s.engine
      exact (congrArg (fun d => get? d r) hresults).trans hres
  | complete r₀ prefixHits =>
    have hne : ¬ r₀ = r := by
      rintro rfl
      exact hcompleted hev.2
    refine ⟨job, hjob, r, hr, ?_, ?_⟩
    · change (s.completed.set r₀ prefixHits).get? r ≠ none
      rwa [get?_set, if_neg hne]
    · change (s.engine.completedResults.set r₀ prefixHits).get? r = none
      rwa [get?_set, if_neg hne]
  | poll j' =>
    refine ⟨job, ?_, r, hr, hcompleted, ?_⟩
    · rcases poll_prefetchJobs s.engine j' j with hsame | ⟨rfl, _⟩
      · exact hsame.trans hjob
      · exact (poll_none hjob hr hres).2.1
    · exact (poll_completedResults s.engine j' r).elim id fun hsame => hsame.trans hres

theorem Intact.lookup (ht : Tracked s) (h : Intact j s) (spans : List (SpanRequest K))
    {worldSize : ℕ} (worldSizePos : 0 < worldSize) :
    Intact j (s.exec (.lookup spans worldSize worldSizePos)) := by
  obtain ⟨hresults, _, _, _, _, hrange⟩ := submitSpans_spec spans s.engine
  intro job hjob r hr
  change (submitSpans spans s.engine).2.completedResults.get? r = s.completed.get? r
  rw [hresults]
  rw [lookup_registered] at hjob
  split_ifs at hjob
  · obtain rfl := some.inj hjob
    have hnone : s.completed.get? r = none := by
      cases hc : s.completed.get? r with
      | none => rfl
      | some hits =>
        have := ht.completedIssued r hits hc
        have := (hrange r hr).1
        omega
    rw [hnone, ht.absent hnone]
  · exact h job hjob r hr

theorem Intact.complete (h : Intact j s) (r₀ prefixHits : ℕ) :
    Intact j (s.exec (.complete r₀ prefixHits)) := by
  intro job hjob r hr
  change (s.engine.completedResults.set r₀ prefixHits).get? r =
    (s.completed.set r₀ prefixHits).get? r
  rw [get?_set, get?_set, h job hjob r hr]

theorem Intact.pollOther {j j' : ℕ} (ht : Tracked s) (h : Intact j s) (hne : j' ≠ j) :
    Intact j (s.exec (.poll j')) := by
  intro job hjob r hr
  have hjob := poll_registered hjob
  change (s.engine.queryPrefetchStatus j').2.completedResults.get? r = s.completed.get? r
  rw [← h job hjob r hr]
  rcases s.engine.queryPrefetchStatus_cases j' with ⟨_, hsame⟩ | ⟨job', hjob', hresults, _⟩
  · rw [hsame]
  · rw [hresults]
    exact querySpans_frame fun hmem => ht.disjoint j' j job' job hjob' hjob hne r hmem hr

theorem Intact.pollPending (ht : Tracked s) (h : Intact j s)
    (hbefore : BeforeCompletion j s (.poll j)) (hpending : FirstPending j s (.poll j)) :
    Intact j (s.exec (.poll j)) := by
  intro job hjob r hr
  have hjob := poll_registered hjob
  obtain ⟨r', hr', _⟩ := exists_pending (hbefore rfl job hjob)
  obtain ⟨r₀, rs, hids⟩ := exists_cons_of_ne_nil (ne_nil_of_mem hr')
  have hnone : s.completed.get? r₀ = none := hpending rfl job hjob r₀ (by rw [hids]; rfl)
  obtain ⟨_, _, hresults⟩ := poll_none hjob (hids ▸ mem_cons_self) (ht.absent hnone)
  change (s.engine.queryPrefetchStatus j).2.completedResults.get? r = s.completed.get? r
  rw [hresults, (querySpans_first hids).2 (ht.absent hnone) r, h job hjob r hr]

theorem lost_of_poll (ht : Tracked s) (hbefore : BeforeCompletion j s (.poll j))
    (hpending : ¬ FirstPending j s (.poll j)) : Lost j (s.exec (.poll j)) := by
  simp only [FirstPending, true_imp_iff, not_forall] at hpending
  obtain ⟨job, hjob, r₀, hhead, hcompleted⟩ := hpending
  obtain ⟨rs, hids⟩ : ∃ rs, requestIds job.spans = r₀ :: rs := by
    cases hids : requestIds job.spans with
    | nil => simp [hids] at hhead
    | cons r rs => exact ⟨rs, by simpa [hids] using hhead⟩
  obtain ⟨r, hr, hnone⟩ := exists_pending (hbefore rfl job hjob)
  obtain ⟨_, hstays, hresults⟩ := poll_none hjob hr (ht.absent hnone)
  refine ⟨job, hstays, r₀, hids ▸ mem_cons_self, hcompleted, ?_⟩
  change (s.engine.queryPrefetchStatus j).2.completedResults.get? r₀ = none
  rw [hresults]
  exact (querySpans_first hids).1

theorem intact_exec (ht : Tracked s) (h : Intact j s) (hbefore : BeforeCompletion j s ev)
    (hpending : FirstPending j s ev) :
    Intact j (s.exec ev) := by
  cases ev with
  | lookup spans worldSize worldSizePos => exact h.lookup ht spans worldSizePos
  | complete r prefixHits => exact h.complete r prefixHits
  | poll j' =>
    by_cases hj : j' = j
    · subst hj
      exact h.pollPending ht hbefore hpending
    · exact h.pollOther ht hj

theorem lost_exec (ht : Tracked s) (hbefore : BeforeCompletion j s ev)
    (hpending : ¬ FirstPending j s ev) :
    Lost j (s.exec ev) := by
  cases ev with
  | lookup spans worldSize worldSizePos => exact absurd trivial hpending
  | complete r prefixHits => exact absurd trivial hpending
  | poll j' =>
    by_cases hj : j' = j
    · subst hj
      exact lost_of_poll ht hbefore hpending
    · exact absurd (fun h => absurd h hj) hpending

theorem answer_of_intact (ht : Tracked s) (h : Intact j s)
    (hjob : s.engine.prefetchJobs.get? j = some job) (hall : AllCompleted s job) :
    (s.engine.queryPrefetchStatus j).1 = some (leadingFound (chunksFound s.completed job)) := by
  have hwalk : (querySpans job.worldSize job.spans s.engine.completedResults).1 =
      some (job.spans.map (fun span => (span.chunkCount, spanHits s.completed job.worldSize span))) :=
    querySpans_all (ht.nodup j job hjob) fun r hr => by
      obtain ⟨l2Result, hc⟩ := (mem_keys_iff _ _).mp ((contains_iff _ _).mp (hall r hr))
      exact ⟨l2Result, hc, (h job hjob r hr).trans hc⟩
  rcases s.engine.queryPrefetchStatus_cases j with ⟨hnone, _⟩ |
    ⟨job', hjob', _, _, _, ⟨hnone, _, _⟩ | ⟨spanHits, hsome, hanswer, _⟩⟩
  · rw [hjob] at hnone
    simp at hnone
  · obtain rfl := some.inj (hjob.symm.trans hjob')
    rw [hwalk] at hnone
    simp at hnone
  · obtain rfl := some.inj (hjob.symm.trans hjob')
    rw [hwalk, some.injEq] at hsome
    rw [hanswer, ← hsome, countLeading_eq]

theorem tracked_init : Tracked (init : JobHistory K) :=
  ⟨fun _ _ => rfl, fun _ _ h => by simp [init, PrefetchJobs.init] at h,
    fun _ _ h => by simp [init, PrefetchJobs.init] at h,
    fun _ _ _ _ h => by simp [init, PrefetchJobs.init] at h,
    fun _ _ h => by simp [init] at h, fun _ _ h => by simp [init, PrefetchJobs.init] at h⟩

theorem answers_iff_firstPending (events : List (JobEvent K)) (j : ℕ)
    (hadmissible : Execution.Along exec Admissible init events)
    (hbefore : Execution.Along exec (BeforeCompletion j) init events) {job : PrefetchJob K}
    (hjob : (final exec init events).engine.prefetchJobs.get? j = some job)
    (hall : AllCompleted (final exec init events) job) :
    ((final exec init events).engine.queryPrefetchStatus j).1 =
        some (leadingFound (chunksFound (final exec init events).completed job)) ↔
      Execution.Along exec (FirstPending j) init events := by
  rcases along_or_not (I := fun s => Tracked s ∧ Intact j s)
    (J := fun s => Tracked s ∧ Lost j s) (P := FirstPending j)
    (fun s ev h hev hp => ⟨tracked_exec s ev h.1 hev.1, intact_exec h.1 h.2 hev.2 hp⟩)
    (fun s ev h hev hp => ⟨tracked_exec s ev h.1 hev.1, lost_exec h.1 hev.2 hp⟩)
    (fun s ev h hev => ⟨tracked_exec s ev h.1 hev.1, h.2.stays h.1 hev.1⟩)
    ⟨tracked_init, fun job h => by simp [init, PrefetchJobs.init] at h⟩
    (hadmissible.and hbefore) with ⟨hgood, ht, hintact⟩ | ⟨hbad, ht, job', hjob', r, hr, _, hres⟩
  · exact iff_of_true (answer_of_intact ht hintact hjob hall) hgood
  · obtain rfl := some.inj (hjob.symm.trans hjob')
    rw [(poll_none hjob hr hres).1]
    exact iff_of_false (by simp) hbad

def twoSpans : JobEvent ℕ :=
  .lookup [⟨2, [10, 11], 1, true⟩, ⟨1, [12], 0, true⟩] 1 Nat.one_pos

def earlyPoll : List (JobEvent ℕ) := [twoSpans, .complete 0 1, .poll 0, .complete 1 1]

def patientPoll : List (JobEvent ℕ) := [twoSpans, .poll 0, .complete 1 0, .poll 0, .complete 0 1]

def twoSpansJob : PrefetchJob ℕ :=
  ⟨[⟨⟨some 0, 1, 2⟩, 2, [10, 11]⟩, ⟨⟨some 1, 0, 1⟩, 1, [12]⟩], 1, Nat.one_pos⟩

theorem answers_iff_firstPending_patientPoll :
    ((final exec init patientPoll).engine.queryPrefetchStatus 0).1 =
        some (leadingFound (chunksFound (final exec init patientPoll).completed twoSpansJob)) ↔
      Execution.Along exec (FirstPending 0) init patientPoll :=
  answers_iff_firstPending patientPoll 0 (by decide +kernel) (by decide +kernel)
    (by decide +kernel) (by decide +kernel)

theorem not_answers_earlyPoll :
    ¬ ∀ (events : List (JobEvent ℕ)) (j : ℕ) (job : PrefetchJob ℕ),
      Execution.Along exec Admissible init events →
      Execution.Along exec (BeforeCompletion j) init events →
      (final exec init events).engine.prefetchJobs.get? j = some job →
      AllCompleted (final exec init events) job →
      ((final exec init events).engine.queryPrefetchStatus j).1 =
        some (leadingFound (chunksFound (final exec init events).completed job)) := by
  intro h
  have hanswer := h earlyPoll 0 twoSpansJob (by decide +kernel) (by decide +kernel)
    (by decide +kernel) (by decide +kernel)
  exact absurd hanswer (by decide +kernel)

end JobHistory

end LMCache
