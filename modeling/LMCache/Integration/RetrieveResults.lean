import LMCache.Integration.WorkerAdapter
import Mathlib.Data.Finset.Lattice.Lemmas

namespace LMCache

open LMCacheMPWorkerAdapter List Dict Option

structure SubmittedRetrieve (R : Type) where
  requestId : R
  blockIds : List ℕ
  result : Option Bool

-- the futures are the positions of calls; returned counts how often get_finished had an id in its
-- second set, loadErrors has what get_block_ids_with_load_errors has returned
structure RetrieveRun (R : Type) where
  adapter : LMCacheMPWorkerAdapter R
  calls : List (SubmittedRetrieve R)
  returned : R → ℕ
  loadErrors : Finset ℕ

inductive RetrieveEvent (R : Type) where
  | submitRetrieveRequest (requestId : R) (blockIds : List ℕ)
  | complete (future : ℕ) (result : Bool)
  | heartbeat (healthy : Bool)
  | getFinished (finishedReqIdsFromEngine : Finset R)
  | getBlockIdsWithLoadErrors

def LMCacheMPWorkerAdapter.getBlockIdsWithLoadErrors {R : Type}
    (adapter : LMCacheMPWorkerAdapter R) : Finset ℕ × LMCacheMPWorkerAdapter R :=
  (adapter.errorBlockIds, { adapter with errorBlockIds := ∅ })

namespace RetrieveRun

open Execution LMCacheMPWorkerAdapter

variable {R : Type} [DecidableEq R]

def start : RetrieveRun R := ⟨.init, [], fun _ => 0, ∅⟩

variable (run : RetrieveRun R)

def resultOf (future : ℕ) : Option Bool :=
  run.calls[future]?.bind SubmittedRetrieve.result

def query (future : ℕ) : Bool := (run.resultOf future).isSome

def finishedRetrieves (ids : Finset R) : Finset R :=
  (run.adapter.getFinished run.query ids).1.2

def completeCall (future : ℕ) (result : Bool) : List (SubmittedRetrieve R) :=
  run.calls.modify future fun call =>
    { call with result := some (call.result.getD result) }

def exec : RetrieveEvent R → RetrieveRun R
  | .submitRetrieveRequest requestId blockIds => { run with
      adapter := run.adapter.submitRetrieveRequest requestId blockIds run.calls.length
      calls := run.calls ++ [⟨requestId, blockIds, none⟩] }
  | .complete future result => { run with calls := run.completeCall future result }
  | .heartbeat healthy => { run with adapter := { run.adapter with isHealthy := healthy } }
  | .getFinished ids => { run with
      adapter := (run.adapter.getFinished run.query ids).2
      returned := fun r => run.returned r + if r ∈ run.finishedRetrieves ids then 1 else 0 }
  | .getBlockIdsWithLoadErrors => { run with
      adapter := run.adapter.getBlockIdsWithLoadErrors.2
      loadErrors := run.loadErrors ∪ run.adapter.getBlockIdsWithLoadErrors.1 }

def errors : Finset ℕ := run.loadErrors ∪ run.adapter.errorBlockIds

def Pending (future : ℕ) (call : SubmittedRetrieve R) : Prop :=
  run.adapter.retrieveFutures.get? call.requestId = some (future, call.blockIds)

def Failed (call : SubmittedRetrieve R) : Prop :=
  call.blockIds.toFinset ⊆ run.errors

structure Correct (run : RetrieveRun R) : Prop where
  once : ∀ r, (run.calls.map SubmittedRetrieve.requestId).count r =
    run.returned r + if run.adapter.retrieveFutures.contains r then 1 else 0
  carried : ∀ future call, run.calls[future]? = some call → ¬ run.Pending future call →
    (run.Failed call ↔ call.result ≠ some true)

def Swept : RetrieveEvent R → Prop
  | .getFinished ids => ∀ r pending,
      (run.exec (.getFinished ids)).adapter.retrieveFutures.get? r = some pending →
        run.adapter.isHealthy = true ∧ run.resultOf pending.1 = none
  | _ => True

def Single : RetrieveEvent R → Prop
  | .submitRetrieveRequest requestId _ =>
      run.adapter.retrieveFutures.contains requestId = false
  | _ => True

def drained : Finset ℕ :=
  (run.adapter.retrieveFutures.values.flatMap Prod.snd).toFinset

structure Drains (run : RetrieveRun R) : Prop where
  pending : ∀ future call, run.calls[future]? = some call → run.Pending future call →
    call.result ≠ some true
  done : ∀ future call, run.calls[future]? = some call → ¬ run.Pending future call →
    call.result = some true → ¬ call.blockIds.toFinset ⊆ run.errors ∪ run.drained

def Sound : RetrieveEvent R → Prop
  | .submitRetrieveRequest _ _ => run.adapter.isHealthy = true
  | .complete future result => result = true → ∀ call, run.calls[future]? = some call →
      call.result = none → run.Pending future call
  | .getFinished _ =>
      if run.adapter.isHealthy then
        ∀ future call, run.calls[future]? = some call → run.Pending future call →
          ∀ result, call.result = some result → (run.Failed call ↔ result = false)
      else run.Drains
  | _ => True

variable {run : RetrieveRun R}

theorem retrieveFutures_getFinished (run : RetrieveRun R) (ids : Finset R) :
    (run.adapter.getFinished run.query ids).2.retrieveFutures =
      if run.adapter.isHealthy then
        dropDone run.adapter.retrieveFutures fun pending => run.query pending.1
      else empty := by
  rw [getFinished]
  split_ifs
  · simp only [processFinishedStores, updateAndGetFinishedStore]
    split_ifs <;> rfl
  · rfl

theorem errorBlockIds_getFinished (run : RetrieveRun R) (ids : Finset R) :
    (run.adapter.getFinished run.query ids).2.errorBlockIds =
      if run.adapter.isHealthy then run.adapter.errorBlockIds
      else run.adapter.errorBlockIds ∪ run.drained := by
  rw [getFinished]
  split_ifs
  · simp only [processFinishedStores, updateAndGetFinishedStore]
    split_ifs <;> rfl
  · rfl

theorem get?_exec_getFinished (ids : Finset R) (r : R) (pending : ℕ × List ℕ) :
    (run.exec (.getFinished ids)).adapter.retrieveFutures.get? r = some pending ↔
      run.adapter.isHealthy = true ∧ run.adapter.retrieveFutures.get? r = some pending ∧
        run.resultOf pending.1 = none := by
  change (run.adapter.getFinished run.query ids).2.retrieveFutures.get? r = _ ↔ _
  rw [retrieveFutures_getFinished]
  cases run.adapter.isHealthy with
  | true => simp [get?_dropDone, query]
  | false => simp

theorem mem_finishedRetrieves (ids : Finset R) (r : R) :
    r ∈ run.finishedRetrieves ids ↔ ∃ pending,
      run.adapter.retrieveFutures.get? r = some pending ∧
        ¬ (run.adapter.isHealthy = true ∧ run.resultOf pending.1 = none) := by
  rw [finishedRetrieves, getFinished]
  cases run.adapter.isHealthy with
  | true => simp [mem_doneKeys, query, isSome_iff_ne_none]
  | false => simp [mem_keys_iff]

theorem swept (run : RetrieveRun R) (event : RetrieveEvent R) : run.Swept event := by
  cases event with
  | getFinished ids =>
    intro r pending hget
    obtain ⟨hhealthy, _, hrunning⟩ := (get?_exec_getFinished ids r pending).mp hget
    exact ⟨hhealthy, hrunning⟩
  | _ => trivial

variable {call : SubmittedRetrieve R}

theorem subset_drained {future : ℕ} (h : run.Pending future call) :
    call.blockIds.toFinset ⊆ run.drained := by
  intro block hblock
  refine mem_toFinset.mpr (mem_flatMap.mpr ⟨(future, call.blockIds), ?_, ?_⟩)
  · exact (mem_values_iff _ _).mpr ⟨_, h⟩
  · exact mem_toFinset.mp hblock

theorem errors_exec_getFinished (run : RetrieveRun R) (ids : Finset R) :
    (run.exec (.getFinished ids)).errors =
      if run.adapter.isHealthy then run.errors else run.errors ∪ run.drained := by
  change run.loadErrors ∪ (run.adapter.getFinished run.query ids).2.errorBlockIds = _
  rw [errorBlockIds_getFinished]
  split_ifs
  · rfl
  · exact (Finset.union_assoc _ _ _).symm

theorem errors_exec_getBlockIds : (run.exec .getBlockIdsWithLoadErrors).errors = run.errors := by
  simp [exec, errors, getBlockIdsWithLoadErrors]

omit [DecidableEq R] in
theorem getElem?_completeCall (future : ℕ) (result : Bool) (i : ℕ) :
    (run.completeCall future result)[i]? = run.calls[i]?.map fun call =>
      if future = i then { call with result := some (call.result.getD result) } else call := by
  rw [completeCall, getElem?_modify]
  split_ifs <;> simp

omit [DecidableEq R] in
theorem map_requestId_completeCall (future : ℕ) (result : Bool) :
    (run.completeCall future result).map SubmittedRetrieve.requestId =
      run.calls.map SubmittedRetrieve.requestId := by
  refine ext_getElem? fun i => ?_
  rw [getElem?_map, getElem?_completeCall, getElem?_map, Option.map_map]
  congr 1
  funext call
  dsimp only [Function.comp]
  split_ifs <;> rfl

theorem count_append_call (r : R) (call : SubmittedRetrieve R) :
    ((run.calls ++ [call]).map SubmittedRetrieve.requestId).count r =
      (run.calls.map SubmittedRetrieve.requestId).count r + if r = call.requestId then 1 else 0 := by
  rw [map_append, count_append, map_singleton, count_singleton]
  simp only [beq_iff_eq, eq_comm (a := r)]

theorem correct_submit_iff (h : run.Correct) (requestId : R) (blockIds : List ℕ)
    (hsingle : run.adapter.retrieveFutures.contains requestId = false) :
    (run.exec (.submitRetrieveRequest requestId blockIds)).Correct ↔
      run.adapter.isHealthy = true := by
  cases hhealthy : run.adapter.isHealthy with
  | false =>
    refine iff_of_false (fun hafter => ?_) Bool.false_ne_true
    have honce := hafter.once requestId
    simp only [exec, submitRetrieveRequest, hhealthy, Bool.false_eq_true,
      if_false] at honce
    rw [count_append_call, if_pos rfl, h.once, hsingle] at honce
    simp at honce
  | true =>
    refine iff_of_true ?_ rfl
    simp only [exec, submitRetrieveRequest, hhealthy, if_true]
    constructor
    · intro r
      dsimp only
      rw [count_append_call, h.once, Nat.add_assoc]
      congr 1
      rcases eq_or_ne r requestId with rfl | hne
      · have hset := (contains_set_iff run.adapter.retrieveFutures r r
          (run.calls.length, blockIds)).mpr (.inl rfl)
        rw [hsingle, hset, if_pos rfl]
        rfl
      · have hset : (run.adapter.retrieveFutures.set requestId
            (run.calls.length, blockIds)).contains r = run.adapter.retrieveFutures.contains r := by
          rw [Dict.contains, Dict.get?_set_ne _ _ hne.symm, Dict.contains]
        rw [hset, if_neg hne, Nat.add_zero]
    · intro future call hcall hover
      dsimp only [Pending] at hcall hover
      rcases Nat.lt_or_ge future run.calls.length with hlt | hge
      · rw [getElem?_append_left hlt] at hcall
        refine h.carried future call hcall fun hpending => hover ?_
        rw [get?_set_ne, hpending]
        rintro rfl
        rw [Pending, get?_eq_none_of_contains hsingle] at hpending
        cases hpending
      · rw [getElem?_append_right hge, getElem?_singleton] at hcall
        split_ifs at hcall with hzero
        cases hcall
        refine absurd ?_ hover
        rw [get?_set_self, Nat.le_antisymm (Nat.sub_eq_zero_iff_le.mp hzero) hge]

theorem correct_complete_iff (h : run.Correct) (future : ℕ) (result : Bool) :
    (run.exec (.complete future result)).Correct ↔ run.Sound (.complete future result) := by
  have honce : ∀ r, ((run.completeCall future result).map SubmittedRetrieve.requestId).count r =
      run.returned r + if run.adapter.retrieveFutures.contains r then 1 else 0 := by
    intro r
    rw [map_requestId_completeCall, h.once]
  constructor
  · intro hafter htrue call hcall hnone
    by_contra hover
    have hfailed := (h.carried future call hcall hover).mpr (by simp [hnone])
    have hget : (run.exec (.complete future result)).calls[future]? =
        some { call with result := some (call.result.getD result) } := by
      change (run.completeCall future result)[future]? = _
      rw [getElem?_completeCall, hcall, map_some, if_pos rfl]
    refine (hafter.carried future _ hget hover).mp hfailed ?_
    rw [hnone, htrue]
    rfl
  · intro hsound
    refine ⟨honce, fun i call' hcall' hover => ?_⟩
    change (run.completeCall future result)[i]? = some call' at hcall'
    rw [getElem?_completeCall, map_eq_some_iff] at hcall'
    obtain ⟨call, hcall, rfl⟩ := hcall'
    split_ifs at hover ⊢ with heq
    · subst heq
      have hcarried := h.carried future call hcall hover
      change run.Failed call ↔ _
      rw [hcarried]
      cases hresult : call.result with
      | some before => simp
      | none =>
        cases result with
        | true => exact absurd (hsound rfl call hcall hresult) hover
        | false => simp
    · exact h.carried i call hcall hover

theorem pending_exec_getFinished_iff (ids : Finset R) {future : ℕ}
    (hcall : run.calls[future]? = some call) :
    (run.exec (.getFinished ids)).Pending future call ↔
      run.Pending future call ∧ run.adapter.isHealthy = true ∧ call.result = none := by
  rw [Pending, get?_exec_getFinished, resultOf, hcall, bind_some, Pending]
  exact and_left_comm

theorem once_exec_getFinished (h : run.Correct) (ids : Finset R) (r : R) :
    (run.calls.map SubmittedRetrieve.requestId).count r =
      (run.exec (.getFinished ids)).returned r +
        if (run.exec (.getFinished ids)).adapter.retrieveFutures.contains r then 1 else 0 := by
  have hafter : (run.exec (.getFinished ids)).adapter.retrieveFutures.contains r = true ↔
      ∃ pending, run.adapter.retrieveFutures.get? r = some pending ∧
        (run.adapter.isHealthy = true ∧ run.resultOf pending.1 = none) := by
    rw [Dict.contains_iff, Dict.mem_keys_iff]
    simp only [get?_exec_getFinished]
    exact exists_congr fun _ => and_left_comm
  change _ = (run.returned r + if r ∈ run.finishedRetrieves ids then 1 else 0) + _
  rw [h.once, Nat.add_assoc]
  congr 1
  simp only [hafter, mem_finishedRetrieves]
  rw [Dict.contains]
  cases hget : run.adapter.retrieveFutures.get? r with
  | none => simp
  | some pending =>
    simp only [isSome_some, some.injEq, exists_eq_left', if_true]
    split_ifs <;> rfl

theorem correct_getFinished_iff (h : run.Correct) (ids : Finset R) :
    (run.exec (.getFinished ids)).Correct ↔ run.Sound (.getFinished ids) := by
  have herrors := errors_exec_getFinished run ids
  rw [Sound]
  split_ifs with hhealthy
  · rw [if_pos hhealthy] at herrors
    have hfailed : ∀ call, (run.exec (.getFinished ids)).Failed call ↔ run.Failed call := by
      intro call
      rw [Failed, herrors, Failed]
    constructor
    · intro hafter future call hcall hpending result hresult
      have hover : ¬ (run.exec (.getFinished ids)).Pending future call := by
        rw [pending_exec_getFinished_iff ids hcall, hresult]
        rintro ⟨_, _, hnone⟩
        cases hnone
      rw [← hfailed, hafter.carried future call hcall hover, hresult]
      cases result <;> simp
    · intro hsound
      refine ⟨once_exec_getFinished h ids, fun future call hcall hover => ?_⟩
      change run.calls[future]? = some call at hcall
      rw [hfailed]
      rw [pending_exec_getFinished_iff ids hcall] at hover
      by_cases hpending : run.Pending future call
      · cases hresult : call.result with
        | none => exact absurd ⟨hpending, hhealthy, hresult⟩ hover
        | some result =>
          rw [hsound future call hcall hpending result hresult]
          cases result <;> simp
      · exact h.carried future call hcall hpending
  · rw [if_neg hhealthy] at herrors
    have hover : ∀ future call, run.calls[future]? = some call →
        ¬ (run.exec (.getFinished ids)).Pending future call := by
      intro future call hcall
      rw [pending_exec_getFinished_iff ids hcall]
      exact fun hpending => hhealthy hpending.2.1
    have hfailed : ∀ call, (run.exec (.getFinished ids)).Failed call ↔
        call.blockIds.toFinset ⊆ run.errors ∪ run.drained := by
      intro call
      rw [Failed, herrors]
    constructor
    · intro hafter
      constructor
      · intro future call hcall hpending
        refine (hafter.carried future call hcall (hover future call hcall)).mp ((hfailed call).mpr ?_)
        exact (subset_drained hpending).trans Finset.subset_union_right
      · intro future call hcall _ hresult hsub
        exact (hafter.carried future call hcall (hover future call hcall)).mp
          ((hfailed call).mpr hsub) hresult
    · intro hdrains
      refine ⟨once_exec_getFinished h ids, fun future call hcall _ => ?_⟩
      rw [hfailed]
      by_cases hpending : run.Pending future call
      · exact iff_of_true ((subset_drained hpending).trans Finset.subset_union_right)
          (hdrains.pending future call hcall hpending)
      · by_cases hresult : call.result = some true
        · exact iff_of_false (hdrains.done future call hcall hpending hresult)
            (not_not.mpr hresult)
        · refine iff_of_true ?_ hresult
          exact ((h.carried future call hcall hpending).mpr hresult).trans Finset.subset_union_left

theorem correct_exec_iff (h : run.Correct) (event : RetrieveEvent R) (hsingle : run.Single event) :
    (run.exec event).Correct ↔ run.Sound event := by
  cases event with
  | submitRetrieveRequest requestId blockIds => exact correct_submit_iff h requestId blockIds hsingle
  | complete future result => exact correct_complete_iff h future result
  | getFinished ids => exact correct_getFinished_iff h ids
  | heartbeat healthy => exact iff_of_true ⟨h.once, h.carried⟩ trivial
  | getBlockIdsWithLoadErrors =>
    refine iff_of_true ⟨h.once, fun future call hcall hover => ?_⟩ trivial
    rw [Failed, errors_exec_getBlockIds]
    exact h.carried future call hcall hover

theorem correct_start : (start : RetrieveRun R).Correct :=
  ⟨fun _ => rfl, fun _ _ hcall => by cases hcall⟩

theorem correct_iff_sound (events : List (RetrieveEvent R))
    (hsingle : Along exec Single start events) :
    (∀ pre rest, events = pre ++ rest → (final exec (start : RetrieveRun R) pre).Correct) ∧
        Along exec Swept start events ↔
      Along exec Sound start events := by
  rw [and_iff_left (along_of_forall swept _ _), forall_prefix_iff (I := Correct),
    and_iff_right correct_start]
  exact along_iff_along (I := Correct) (fun run event h hs hsound =>
    (correct_exec_iff h event hs).mpr hsound) (fun run event h hs => correct_exec_iff h event hs)
    correct_start hsingle

def lostBlocks : List (RetrieveEvent ℕ) :=
  [.submitRetrieveRequest 0 [7], .complete 0 false, .getFinished ∅]

theorem correct_iff_sound_lostBlocks :
    (∀ pre rest, lostBlocks = pre ++ rest → (final exec (start : RetrieveRun ℕ) pre).Correct) ∧
        Along exec Swept start lostBlocks ↔ Along exec Sound start lostBlocks :=
  correct_iff_sound lostBlocks ⟨rfl, trivial, trivial, trivial⟩

theorem not_correct_lostBlocks : ¬ ∀ events : List (RetrieveEvent ℕ),
    Along exec Single start events →
      (∀ pre rest, events = pre ++ rest → (final exec (start : RetrieveRun ℕ) pre).Correct) ∧
        Along exec Swept start events := by
  intro h
  have hcorrect := (h lostBlocks ⟨rfl, trivial, trivial, trivial⟩).1 lostBlocks [] rfl
  have hfailed := (hcorrect.carried 0 ⟨0, [7], some false⟩ rfl (by unfold Pending; decide)).mpr
    (by decide)
  exact absurd hfailed (by unfold Failed; decide)

end RetrieveRun

end LMCache
