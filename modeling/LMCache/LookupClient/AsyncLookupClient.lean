import LMCache.Foundations.Dict
import LMCache.Foundations.Execution
import Mathlib.Data.Finset.Basic
import Mathlib.Data.List.Range

namespace LMCache

open List

inductive LookupResult where
  | notFound
  | ongoing
  | timedOut
  | hits (numHitTokens : ℕ)
  | keyError
deriving DecidableEq, Repr

structure LMCacheAsyncLookupClient (I : Type) where
  reqsStatus : Dict I (Option ℕ)
  firstLookupTime : Dict I ℕ
  resForEachWorker : Dict I (List ℕ)
  abortedLookups : Finset I

namespace LMCacheAsyncLookupClient

variable {I : Type} [DecidableEq I]

def init : LMCacheAsyncLookupClient I := ⟨.empty, .empty, .empty, ∅⟩

variable (client : LMCacheAsyncLookupClient I)

def clearLookupStatus (lookupId : I) : LMCacheAsyncLookupClient I :=
  { client with
    reqsStatus := client.reqsStatus.erase lookupId
    firstLookupTime := client.firstLookupTime.erase lookupId }

def cancelLookup (lookupId : I) : LMCacheAsyncLookupClient I :=
  { client with abortedLookups := insert lookupId client.abortedLookups }

def finishedLookups : Finset I :=
  client.abortedLookups.filter fun lookupId =>
    ((client.reqsStatus.get? lookupId).join).isSome = true

def lookupCacheLocked (lookupTimeoutMs now : ℕ) (lookupId : I) :
    LookupResult × LMCacheAsyncLookupClient I :=
  match client.reqsStatus.get? lookupId with
  | none =>
      (.notFound,
        { client with
          reqsStatus := client.reqsStatus.set lookupId none
          firstLookupTime := client.firstLookupTime.set lookupId now })
  | some none =>
      match client.firstLookupTime.get? lookupId with
      | none => (.keyError, client)
      | some first =>
          if lookupTimeoutMs < now - first then
            (.timedOut,
              { client.cancelLookup lookupId with
                firstLookupTime := client.firstLookupTime.erase lookupId })
          else (.ongoing, client)
  | some (some numHitTokens) => (.hits numHitTokens, client)

def processResponse (worldSize : ℕ) (lookupId : I) (res : ℕ) : LMCacheAsyncLookupClient I :=
  let allRes := (client.resForEachWorker.get? lookupId).getD [] ++ [res]
  if allRes.length = worldSize then
    { client with
      resForEachWorker := client.resForEachWorker.erase lookupId
      reqsStatus := client.reqsStatus.set lookupId (some (allRes.min?.getD 0)) }
  else { client with resForEachWorker := client.resForEachWorker.set lookupId allRes }

section ProcessResponse

variable {client : LMCacheAsyncLookupClient I} {worldSize : ℕ} {lookupId id : I} {res : ℕ}

theorem get?_resForEachWorker_processResponse :
    (client.processResponse worldSize lookupId res).resForEachWorker.get? id =
      if lookupId = id then
        if ((client.resForEachWorker.get? lookupId).getD [] ++ [res]).length = worldSize then none
        else some ((client.resForEachWorker.get? lookupId).getD [] ++ [res])
      else client.resForEachWorker.get? id := by
  rw [processResponse]
  split_ifs with hfull heq heq
  · exact (Dict.get?_erase _ _ _).trans (if_pos heq)
  · exact (Dict.get?_erase _ _ _).trans (if_neg heq)
  · exact heq ▸ Dict.get?_set_self _ _ _
  · exact Dict.get?_set_ne _ _ heq

theorem get?_reqsStatus_processResponse :
    (client.processResponse worldSize lookupId res).reqsStatus.get? id =
      if lookupId = id ∧
          ((client.resForEachWorker.get? lookupId).getD [] ++ [res]).length = worldSize then
        some (some (((client.resForEachWorker.get? lookupId).getD [] ++ [res]).min?.getD 0))
      else client.reqsStatus.get? id := by
  rw [processResponse]
  split_ifs with hfull hboth hboth
  · exact hboth.1 ▸ Dict.get?_set_self _ _ _
  · exact Dict.get?_set_ne _ _ fun heq => hboth ⟨heq, hfull⟩
  · exact absurd hboth.2 hfull
  · rfl

theorem abortedLookups_processResponse :
    (client.processResponse worldSize lookupId res).abortedLookups = client.abortedLookups := by
  rw [processResponse]
  split_ifs
  · rfl
  · rfl

end ProcessResponse

end LMCacheAsyncLookupClient

inductive WorkerMsg (I : Type) where
  | request (lookupId : I) (gen : ℕ)
  | cleanup (lookupId : I) (gen : ℕ)
deriving DecidableEq

structure LookupRequest (I : Type) where
  worker : ℕ
  lookupId : I
  gen : ℕ
deriving DecidableEq

structure LookupResponse (I : Type) where
  request : LookupRequest I
  numHitTokens : ℕ
deriving DecidableEq

inductive SchedulerPc (I : Type) where
  | idle
  | cleaning (finished : Finset I) (lookupId : I)
  | clearing (abortedId : I) (finished : Finset I) (lookupId : I)
  | asked (lookupId : I)

structure LookupRun (I : Type) where
  client : LMCacheAsyncLookupClient I
  pc : SchedulerPc I
  started : ℕ
  latest : Dict I ℕ
  abortedFor : Dict I ℕ
  queues : ℕ → List (WorkerMsg I)
  handled : ℕ → List (WorkerMsg I)
  pending : List (LookupRequest I)
  responses : List (LookupResponse I)
  processed : List (LookupResponse I)

inductive AsyncLookupEvent (I : Type) where
  | lookupCache (lookupId : I)
  | sendCleanup (abortedId : I)
  | clearAborted
  | lookupCacheLocked (now : ℕ)
  | lookup
  | clearLookupStatus (lookupId : I)
  | cancelLookup (lookupId : I)
  | receive (worker : ℕ)
  | answer (request : LookupRequest I) (numHitTokens : ℕ)
  | processResponse (index : ℕ)

structure AsyncLookupConfig where
  worldSize : ℕ
  lookupTimeoutMs : ℕ

namespace LookupRun

variable {I : Type} [DecidableEq I]

def start : LookupRun I where
  client := .init
  pc := .idle
  started := 0
  latest := .empty
  abortedFor := .empty
  queues := fun _ => []
  handled := fun _ => []
  pending := []
  responses := []
  processed := []

variable (run : LookupRun I)

def latestOf (lookupId : I) : ℕ := (run.latest.get? lookupId).getD 0

def push (worldSize : ℕ) (msg : WorkerMsg I) : LookupRun I :=
  { run with queues := fun worker =>
      if worker < worldSize then run.queues worker ++ [msg] else run.queues worker }

def abort (lookupId : I) : LookupRun I :=
  { run with abortedFor := run.abortedFor.set lookupId (run.latestOf lookupId) }

def sendCleanupMessage (worldSize : ℕ) (lookupId : I) : LookupRun I :=
  run.push worldSize (.cleanup lookupId ((run.abortedFor.get? lookupId).getD 0))

def sendLookup (worldSize : ℕ) (lookupId : I) : LookupRun I :=
  { run with
    pc := .idle
    started := run.started + 1
    latest := run.latest.set lookupId (run.started + 1)
    }.push worldSize (.request lookupId (run.started + 1))

def takeMsg (worker : ℕ) (msg : WorkerMsg I) (rest : List (WorkerMsg I)) : LookupRun I :=
  { run with
    queues := fun w => if w = worker then rest else run.queues w
    handled := fun w => if w = worker then run.handled w ++ [msg] else run.handled w
    pending := match msg with
      | .request lookupId gen => run.pending ++ [⟨worker, lookupId, gen⟩]
      | .cleanup _ _ => run.pending }

variable (config : AsyncLookupConfig)

def answered (now : ℕ) (lookupId : I) : LookupResult :=
  (run.client.lookupCacheLocked config.lookupTimeoutMs now lookupId).1

def check (now : ℕ) (lookupId : I) : LookupRun I :=
  let run' := { run with
    client := (run.client.lookupCacheLocked config.lookupTimeoutMs now lookupId).2
    pc := if run.answered config now lookupId = .notFound then .asked lookupId else .idle }
  if run.answered config now lookupId = .timedOut then run'.abort lookupId else run'

def exec (run : LookupRun I) : AsyncLookupEvent I → LookupRun I
  | .lookupCache lookupId =>
      match run.pc with
      | .idle =>
          { run with
            client :=
              { run.client with
                abortedLookups := run.client.abortedLookups \ run.client.finishedLookups }
            pc := .cleaning run.client.finishedLookups lookupId }
      | _ => run
  | .sendCleanup abortedId =>
      match run.pc with
      | .cleaning finished lookupId =>
          if abortedId ∈ finished then
            { run.sendCleanupMessage config.worldSize abortedId with
              pc := .clearing abortedId (finished.erase abortedId) lookupId }
          else run
      | _ => run
  | .clearAborted =>
      match run.pc with
      | .clearing abortedId finished lookupId =>
          { run with
            client := run.client.clearLookupStatus abortedId
            pc := .cleaning finished lookupId }
      | _ => run
  | .lookupCacheLocked now =>
      match run.pc with
      | .cleaning finished lookupId =>
          if finished = ∅ then run.check config now lookupId else run
      | _ => run
  | .lookup =>
      match run.pc with
      | .asked lookupId => run.sendLookup config.worldSize lookupId
      | _ => run
  | .clearLookupStatus lookupId =>
      match run.pc with
      | .idle => { run with client := run.client.clearLookupStatus lookupId }
      | _ => run
  | .cancelLookup lookupId =>
      match run.pc with
      | .idle => { run with client := run.client.cancelLookup lookupId }.abort lookupId
      | _ => run
  | .receive worker =>
      match run.queues worker with
      | [] => run
      | msg :: rest => run.takeMsg worker msg rest
  | .answer request numHitTokens =>
      if request ∈ run.pending then
        { run with
          pending := run.pending.erase request
          responses := run.responses ++ [⟨request, numHitTokens⟩] }
      else run
  | .processResponse index =>
      match run.responses[index]? with
      | none => run
      | some response =>
          { run with
            client := run.client.processResponse config.worldSize response.request.lookupId
              response.numHitTokens
            responses := run.responses.eraseIdx index
            processed := run.processed ++ [response] }

end LookupRun

open Execution

namespace LookupRun

variable {I : Type} [DecidableEq I] (run : LookupRun I)

def answersTo (lookupId : I) (gen : ℕ) : List (LookupResponse I) :=
  run.processed.filter fun response =>
    decide (response.request.lookupId = lookupId ∧ response.request.gen = gen)

def Answers (worldSize : ℕ) (responses : List (LookupResponse I)) (numHitTokens : ℕ) : Prop :=
  (responses.map fun response => response.request.worker).Perm (range worldSize) ∧
    (responses.map LookupResponse.numHitTokens).min? = some numHitTokens

def Promised (config : AsyncLookupConfig) (run : LookupRun I) : AsyncLookupEvent I → Prop
  | .lookupCacheLocked now =>
      ∀ lookupId, run.pc = .cleaning ∅ lookupId →
        run.answered config now lookupId ≠ .keyError ∧
          ∀ n, run.answered config now lookupId = .hits n →
            ∃ gen, run.latest.get? lookupId = some gen ∧
              Answers config.worldSize (run.answersTo lookupId gen) n
  | .receive worker =>
      ∀ lookupId gen, (run.queues worker).head? = some (.cleanup lookupId gen) →
        ∀ later, .request lookupId later ∈ run.handled worker → later ≤ gen
  | _ => True

def Outstanding (lookupId : I) : Prop :=
  (∃ worker gen, .request lookupId gen ∈ run.queues worker) ∨
    (∃ request ∈ run.pending, request.lookupId = lookupId) ∨
    ∃ response ∈ run.responses, response.request.lookupId = lookupId

def Orderly : AsyncLookupEvent I → Prop
  | .lookupCacheLocked _ =>
      ∀ lookupId, run.pc = .cleaning ∅ lookupId →
        (run.client.reqsStatus.get? lookupId = none →
          ¬ run.Outstanding lookupId ∧ lookupId ∉ run.client.abortedLookups) ∧
        (run.client.reqsStatus.get? lookupId = some none →
          ∃ first, run.client.firstLookupTime.get? lookupId = some first)
  | _ => True

def tally (request : LookupRequest I) : ℕ :=
  (run.queues request.worker).count (.request request.lookupId request.gen) +
    run.pending.count request + (run.responses.map LookupResponse.request).count request +
      (run.processed.map LookupResponse.request).count request

structure Current (worldSize : ℕ) (latest : Dict I ℕ) (request : LookupRequest I) : Prop where
  inside : request.worker < worldSize
  latest : latest.get? request.lookupId = some request.gen

structure Traffic (worldSize : ℕ) (run : LookupRun I) : Prop where
  queued : ∀ worker lookupId gen, .request lookupId gen ∈ run.queues worker →
    Current worldSize run.latest ⟨worker, lookupId, gen⟩
  pending : ∀ request ∈ run.pending, Current worldSize run.latest request
  responses : ∀ response ∈ run.responses, Current worldSize run.latest response.request
  processed : ∀ response ∈ run.processed, response.request.worker < worldSize ∧
    response.request.gen ≤ run.started
  bounded : ∀ lookupId gen, run.latest.get? lookupId = some gen → gen ≤ run.started
  once : ∀ request, Current worldSize run.latest request → run.tally request = 1

def collected (worldSize : ℕ) (responses : List (LookupResponse I)) : Option (List ℕ) :=
  if responses.length = 0 ∨ responses.length = worldSize then none
  else some (responses.map LookupResponse.numHitTokens)

structure Collected (worldSize : ℕ) (run : LookupRun I) : Prop where
  partialResults : ∀ lookupId, run.client.resForEachWorker.get? lookupId =
    (run.latest.get? lookupId).bind fun gen => collected worldSize (run.answersTo lookupId gen)
  status : ∀ lookupId n, run.client.reqsStatus.get? lookupId = some (some n) →
    ∃ gen, run.latest.get? lookupId = some gen ∧
      (run.answersTo lookupId gen).length = worldSize ∧
        ((run.answersTo lookupId gen).map LookupResponse.numHitTokens).min? = some n

def cleaned : Finset I :=
  match run.pc with
  | .cleaning finished _ => finished
  | .clearing _ finished _ => finished
  | _ => ∅

def NotAhead (m m' : WorkerMsg I) : Prop :=
  ∀ lookupId gen later, m = .request lookupId later → m' = .cleanup lookupId gen → later ≤ gen

structure InOrder (run : LookupRun I) : Prop where
  ordered : ∀ worker, (run.handled worker ++ run.queues worker).Pairwise NotAhead
  known : ∀ worker lookupId gen, .request lookupId gen ∈ run.handled worker ++ run.queues worker →
    gen ≤ run.latestOf lookupId
  aborted : ∀ lookupId ∈ run.client.abortedLookups ∪ run.cleaned,
    run.abortedFor.get? lookupId = some (run.latestOf lookupId)

def Asked : Prop :=
  ∀ lookupId, run.pc = .asked lookupId → ¬ run.Outstanding lookupId ∧
    lookupId ∉ run.client.abortedLookups ∧ run.client.reqsStatus.get? lookupId = some none

structure Tidy (worldSize : ℕ) (run : LookupRun I) : Prop where
  traffic : Traffic worldSize run
  collected : Collected worldSize run
  inOrder : InOrder run
  asked : Asked run

section Counting

variable {worldSize : ℕ} {run : LookupRun I}

theorem count_worker_answersTo (lookupId : I) (gen worker : ℕ) :
    ((run.answersTo lookupId gen).map fun response => response.request.worker).count worker =
      (run.processed.map LookupResponse.request).count ⟨worker, lookupId, gen⟩ := by
  rw [answersTo, count_eq_countP, count_eq_countP, countP_map, countP_map, countP_filter]
  refine countP_congr fun response _ => ?_
  obtain ⟨⟨w, i, g⟩, n⟩ := response
  simp

variable {gen : ℕ}

theorem Traffic.answersTo_nodup (h : Traffic worldSize run) {lookupId : I}
    (hlatest : run.latest.get? lookupId = some gen) :
    ((run.answersTo lookupId gen).map fun response => response.request.worker).Nodup ∧
      ∀ worker ∈ (run.answersTo lookupId gen).map fun response => response.request.worker,
        worker < worldSize := by
  have hinside : ∀ worker ∈ (run.answersTo lookupId gen).map fun response =>
      response.request.worker, worker < worldSize := by
    intro worker hworker
    obtain ⟨response, hresponse, rfl⟩ := mem_map.mp hworker
    exact (h.processed response (mem_of_mem_filter hresponse)).1
  refine ⟨nodup_iff_count_le_one.mpr fun worker => ?_, hinside⟩
  by_cases hlt : worker < worldSize
  · have honce := h.once ⟨worker, lookupId, gen⟩ ⟨hlt, hlatest⟩
    rw [count_worker_answersTo]
    rw [tally] at honce
    omega
  · rw [count_eq_zero_of_not_mem fun hmem => hlt (hinside worker hmem)]
    exact Nat.zero_le 1

theorem Traffic.answersTo_perm (h : Traffic worldSize run) {lookupId : I}
    (hlatest : run.latest.get? lookupId = some gen)
    (hall : (run.answersTo lookupId gen).length = worldSize) :
    ((run.answersTo lookupId gen).map fun response => response.request.worker).Perm
      (range worldSize) := by
  obtain ⟨hnodup, hinside⟩ := h.answersTo_nodup hlatest
  refine (subperm_of_subset hnodup fun worker hworker =>
    mem_range.mpr (hinside worker hworker)).perm_of_length_le ?_
  rw [length_range, length_map, hall]

theorem Traffic.answersTo_lt (h : Traffic worldSize run) {request : LookupRequest I}
    (hcurrent : Current worldSize run.latest request)
    (howed : (run.processed.map LookupResponse.request).count request = 0) :
    (run.answersTo request.lookupId request.gen).length < worldSize := by
  obtain ⟨hnodup, hinside⟩ := h.answersTo_nodup hcurrent.latest
  have hnot : request.worker ∉
      (run.answersTo request.lookupId request.gen).map fun response => response.request.worker := by
    refine count_eq_zero.mp ?_
    rw [count_worker_answersTo]
    exact howed
  have hsub := (subperm_of_subset (nodup_cons.mpr ⟨hnot, hnodup⟩)
    fun worker hworker => mem_range.mpr (by
      rcases mem_cons.mp hworker with rfl | hmem
      · exact hcurrent.inside
      · exact hinside worker hmem)).length_le
  rwa [length_cons, length_range, length_map] at hsub

theorem Traffic.answersTo_all (h : Traffic worldSize run) {lookupId : I}
    (hlatest : run.latest.get? lookupId = some gen) (hquiet : ¬ run.Outstanding lookupId) :
    (run.answersTo lookupId gen).length = worldSize := by
  obtain ⟨hnodup, hinside⟩ := h.answersTo_nodup hlatest
  refine Nat.le_antisymm ?_ ?_
  · have hle := (subperm_of_subset hnodup fun worker hworker =>
      mem_range.mpr (hinside worker hworker)).length_le
    rwa [length_range, length_map] at hle
  · have hsub : (range worldSize).Subperm
        ((run.answersTo lookupId gen).map fun response => response.request.worker) := by
      refine subperm_of_subset nodup_range fun worker hworker => ?_
      have honce := h.once ⟨worker, lookupId, gen⟩ ⟨mem_range.mp hworker, hlatest⟩
      have hqueue : (run.queues worker).count (.request lookupId gen) = 0 :=
        count_eq_zero_of_not_mem fun hmem => hquiet (.inl ⟨worker, gen, hmem⟩)
      have hpending : run.pending.count ⟨worker, lookupId, gen⟩ = 0 :=
        count_eq_zero_of_not_mem fun hmem => hquiet (.inr (.inl ⟨_, hmem, rfl⟩))
      have hresponses :
          (run.responses.map LookupResponse.request).count ⟨worker, lookupId, gen⟩ = 0 := by
        refine count_eq_zero_of_not_mem fun hmem => ?_
        obtain ⟨response, hresponse, heq⟩ := mem_map.mp hmem
        exact hquiet (.inr (.inr ⟨response, hresponse, by rw [heq]⟩))
      rw [tally] at honce
      dsimp only at honce
      rw [hqueue, hpending, hresponses] at honce
      refine count_pos_iff.mp ?_
      rw [count_worker_answersTo]
      omega
    have hle := hsub.length_le
    rwa [length_range, length_map] at hle

end Counting

end LookupRun

end LMCache
