import LMCache.Foundations.Dict
import LMCache.Foundations.Execution
import Mathlib.Data.Finset.Basic

namespace LMCache

open Finset Dict

-- futures and blocks are numbers; telemetry has what was reported to the request telemetry
structure LMCacheMPWorkerAdapter (R : Type) where
  isHealthy : Bool
  storeFutures : Dict R ℕ
  retrieveFutures : Dict R (ℕ × List ℕ)
  errorBlockIds : Finset ℕ
  finishedStores : Finset R
  previouslyFinished : Finset R
  telemetry : List (Finset R)

namespace LMCacheMPWorkerAdapter

variable {R : Type} [DecidableEq R]

def init : LMCacheMPWorkerAdapter R :=
  ⟨true, empty, empty, ∅, ∅, ∅, []⟩

variable (adapter : LMCacheMPWorkerAdapter R)

def submitStoreRequest (requestId : R) (future : ℕ) : LMCacheMPWorkerAdapter R :=
  if adapter.isHealthy then
    { adapter with storeFutures := adapter.storeFutures.set requestId future }
  else adapter

def submitRetrieveRequest (requestId : R) (blockIds : List ℕ) (future : ℕ) :
    LMCacheMPWorkerAdapter R :=
  if adapter.isHealthy then
    { adapter with retrieveFutures := adapter.retrieveFutures.set requestId (future, blockIds) }
  else { adapter with errorBlockIds := adapter.errorBlockIds ∪ blockIds.toFinset }

def updateAndGetFinishedStore : Finset R × LMCacheMPWorkerAdapter R :=
  let safeFinishedS := adapter.finishedStores ∩ adapter.previouslyFinished
  (safeFinishedS,
    { adapter with
      finishedStores := adapter.finishedStores \ adapter.previouslyFinished
      previouslyFinished := adapter.previouslyFinished \ safeFinishedS })

def hasStore (requestId : R) : Prop :=
  requestId ∈ adapter.finishedStores ∨ adapter.storeFutures.contains requestId = true

instance (adapter : LMCacheMPWorkerAdapter R) (requestId : R) :
    Decidable (adapter.hasStore requestId) :=
  inferInstanceAs (Decidable (_ ∨ _))

def processFinishedStores (finishedReqIdsFromLmcache finishedReqIdsFromEngine : Finset R) :
    Finset R × LMCacheMPWorkerAdapter R :=
  let adapter := { adapter with
    finishedStores := adapter.finishedStores ∪ finishedReqIdsFromLmcache }
  let retStores := finishedReqIdsFromEngine.filter fun reqId => ¬ adapter.hasStore reqId
  let updated := { adapter with
    previouslyFinished := adapter.previouslyFinished ∪
      finishedReqIdsFromEngine.filter adapter.hasStore }.updateAndGetFinishedStore
  (retStores ∪ updated.1, updated.2)

def doneKeys {F : Type} (futures : Dict R F) (done : F → Bool) : Finset R :=
  ((futures.items.filter fun p => done p.2).map Prod.fst).toFinset

def dropDone {F : Type} (futures : Dict R F) (done : F → Bool) : Dict R F :=
  futures.filterMapValues fun future => if done future then none else some future

def getFinished (query : ℕ → Bool) (finishedReqIdsFromEngine : Finset R) :
    (Finset R × Finset R) × LMCacheMPWorkerAdapter R :=
  if adapter.isHealthy then
    let finishedStores := doneKeys adapter.storeFutures query
    let finishedRetrieves := doneKeys adapter.retrieveFutures fun pending => query pending.1
    let processed := { adapter with
      storeFutures := dropDone adapter.storeFutures query
      retrieveFutures := dropDone adapter.retrieveFutures fun pending => query pending.1
      }.processFinishedStores finishedStores finishedReqIdsFromEngine
    ((processed.1, finishedRetrieves),
      if processed.1 = ∅ then processed.2
      else { processed.2 with telemetry := processed.2.telemetry ++ [processed.1] })
  else
    let processed := { adapter with
      storeFutures := empty
      retrieveFutures := empty
      errorBlockIds := adapter.errorBlockIds ∪
        (adapter.retrieveFutures.values.flatMap Prod.snd).toFinset
      }.processFinishedStores adapter.storeFutures.keys.toFinset finishedReqIdsFromEngine
    ((processed.1, adapter.retrieveFutures.keys.toFinset), processed.2)

end LMCacheMPWorkerAdapter

-- a run of the adapter with its server: completed has the futures that are done, submitted the
-- stores that were ever sent, reported and returned what get_finished was ever told and answered
structure AdapterRun (R : Type) where
  adapter : LMCacheMPWorkerAdapter R
  nextFuture : ℕ
  completed : Finset ℕ
  submitted : List (R × ℕ)
  reported : Finset R
  returned : Finset R

inductive AdapterEvent (R : Type) where
  | submitStoreRequest (requestId : R)
  | submitRetrieveRequest (requestId : R) (blockIds : List ℕ)
  | complete (future : ℕ)
  | getFinished (finishedReqIdsFromEngine : Finset R)
  | heartbeat (healthy : Bool)

namespace AdapterRun

variable {R : Type} [DecidableEq R]

def start : AdapterRun R := ⟨.init, 0, ∅, [], ∅, ∅⟩

variable (run : AdapterRun R)

def query (future : ℕ) : Bool := decide (future ∈ run.completed)

def finishedStores (ids : Finset R) : Finset R :=
  (run.adapter.getFinished run.query ids).1.1

def exec : AdapterEvent R → AdapterRun R
  | .submitStoreRequest requestId => { run with
      adapter := run.adapter.submitStoreRequest requestId run.nextFuture
      nextFuture := run.nextFuture + 1
      submitted := if run.adapter.isHealthy then run.submitted ++ [(requestId, run.nextFuture)]
        else run.submitted }
  | .submitRetrieveRequest requestId blockIds => { run with
      adapter := run.adapter.submitRetrieveRequest requestId blockIds run.nextFuture
      nextFuture := run.nextFuture + 1 }
  | .complete future => { run with completed := insert future run.completed }
  | .getFinished ids => { run with
      adapter := (run.adapter.getFinished run.query ids).2
      reported := run.reported ∪ ids
      returned := run.returned ∪ run.finishedStores ids }
  | .heartbeat healthy => { run with adapter := { run.adapter with isHealthy := healthy } }

end AdapterRun

open Execution

namespace LMCacheMPWorkerAdapter

variable {R : Type} [DecidableEq R] {F : Type}

theorem mem_doneKeys (futures : Dict R F) (done : F → Bool) (r : R) :
    r ∈ doneKeys futures done ↔ ∃ future, futures.get? r = some future ∧ done future = true := by
  simp only [doneKeys, List.mem_toFinset, List.mem_map, List.mem_filter, get?_eq_some_iff]
  constructor
  · rintro ⟨p, ⟨hmem, hdone⟩, rfl⟩
    exact ⟨p.2, hmem, hdone⟩
  · rintro ⟨future, hmem, hdone⟩
    exact ⟨(r, future), ⟨hmem, hdone⟩, rfl⟩

theorem get?_dropDone (futures : Dict R F) (done : F → Bool) (r : R) (future : F) :
    (dropDone futures done).get? r = some future ↔
      futures.get? r = some future ∧ done future = false := by
  rw [dropDone, get?_filterMapValues, Option.bind_eq_some_iff]
  constructor
  · rintro ⟨pending, hget, hkept⟩
    split_ifs at hkept with hdone
    obtain rfl := Option.some.inj hkept
    exact ⟨hget, Bool.eq_false_iff.mpr hdone⟩
  · rintro ⟨hget, hdone⟩
    exact ⟨future, hget, if_neg (Bool.eq_false_iff.mp hdone)⟩

theorem contains_dropDone (futures : Dict R F) (done : F → Bool) (r : R) :
    (dropDone futures done).contains r = true ↔
      ∃ future, futures.get? r = some future ∧ done future = false := by
  rw [contains_iff, mem_keys_iff]
  exact exists_congr fun future => get?_dropDone futures done r future

def Settled (adapter : LMCacheMPWorkerAdapter R) (query : ℕ → Bool) (r : R) : Prop :=
  r ∈ adapter.finishedStores ∨
    ∀ future, adapter.storeFutures.get? r = some future → query future = true

variable {adapter : LMCacheMPWorkerAdapter R} {query : ℕ → Bool} {ids : Finset R}

-- what get_finished hears of is either returned or kept for a later report
theorem mem_getFinished (hhealthy : adapter.isHealthy = true)
    (hprev : ∀ r ∈ adapter.previouslyFinished, ∃ future, adapter.storeFutures.get? r = some future)
    (r : R) :
    (r ∈ (adapter.getFinished query ids).1.1 ↔
      r ∈ adapter.previouslyFinished ∪ ids ∧ adapter.Settled query r) ∧
    (r ∈ (adapter.getFinished query ids).2.previouslyFinished ↔
      r ∈ adapter.previouslyFinished ∪ ids ∧ ¬ adapter.Settled query r) := by
  simp only [getFinished, hhealthy, if_true]
  rw [apply_ite LMCacheMPWorkerAdapter.previouslyFinished, ite_self]
  simp only [processFinishedStores, updateAndGetFinishedStore, hasStore, Settled, mem_union,
    mem_filter, mem_inter, mem_sdiff, mem_doneKeys, contains_dropDone]
  cases hget : adapter.storeFutures.get? r with
  | none =>
    have hnew : r ∉ adapter.previouslyFinished := fun hmem => by
      obtain ⟨future, hsome⟩ := hprev r hmem
      rw [hget] at hsome
      cases hsome
    simp [hnew]
    tauto
  | some future =>
    cases hdone : query future
    · simp [hdone]
      tauto
    · simp [hdone]
      tauto

theorem storeFutures_getFinished (hhealthy : adapter.isHealthy = true) :
    (adapter.getFinished query ids).2.storeFutures = dropDone adapter.storeFutures query := by
  simp only [getFinished, hhealthy, if_true]
  rw [apply_ite LMCacheMPWorkerAdapter.storeFutures]
  exact ite_self _

theorem finishedStores_getFinished (hhealthy : adapter.isHealthy = true) :
    (adapter.getFinished query ids).2.finishedStores ⊆
      adapter.finishedStores ∪ doneKeys adapter.storeFutures query := by
  simp only [getFinished, hhealthy, if_true]
  rw [apply_ite LMCacheMPWorkerAdapter.finishedStores, ite_self]
  exact sdiff_subset

end LMCacheMPWorkerAdapter

namespace AdapterRun

variable {R : Type} [DecidableEq R] (run : AdapterRun R)

def AllDone (r : R) : Prop :=
  ∀ future, (r, future) ∈ run.submitted → future ∈ run.completed

def Released : AdapterEvent R → Prop
  | .getFinished ids => ∀ r, r ∈ run.finishedStores ids ↔
      r ∈ run.reported ∪ ids ∧ r ∉ run.returned ∧ run.AllDone r
  | _ => True

def InOrder : Prop :=
  ∀ earlier ∈ run.submitted, ∀ later ∈ run.submitted, earlier.1 = later.1 →
    earlier.2 < later.2 → later.2 ∈ run.completed → earlier.2 ∈ run.completed

-- a store comes before a call has collected one of its request, an id returned is not reported
-- again, and at a call no store of a request has overtaken an earlier one
def Orderly : AdapterEvent R → Prop
  | .submitStoreRequest requestId => requestId ∉ run.adapter.finishedStores
  | .getFinished ids => Disjoint ids run.returned ∧ run.InOrder
  | _ => True

instance (run : AdapterRun R) (event : AdapterEvent R) : Decidable (run.Orderly event) :=
  match event with
  | .submitStoreRequest requestId => inferInstanceAs (Decidable (requestId ∉ _))
  | .getFinished _ => inferInstanceAs (Decidable (_ ∧
      ∀ earlier ∈ run.submitted, ∀ later ∈ run.submitted, earlier.1 = later.1 →
        earlier.2 < later.2 → later.2 ∈ run.completed → earlier.2 ∈ run.completed))
  | .submitRetrieveRequest _ _ | .complete _ | .heartbeat _ => .isTrue trivial

def Healthy : AdapterEvent R → Prop :=
  fun _ => run.adapter.isHealthy = true

structure Tracked (run : AdapterRun R) : Prop where
  pending : ∀ r ∈ run.adapter.previouslyFinished,
    ∃ future, run.adapter.storeFutures.get? r = some future
  seen : run.adapter.previouslyFinished ⊆ run.reported
  kept : ∀ r ∈ run.reported, r ∉ run.returned → r ∈ run.adapter.previouslyFinished
  waiting : ∀ r ∈ run.adapter.previouslyFinished, r ∉ run.returned
  sent : ∀ r future, run.adapter.storeFutures.get? r = some future → (r, future) ∈ run.submitted
  numbered : ∀ r future, (r, future) ∈ run.submitted → future < run.nextFuture
  latest : ∀ r future, (r, future) ∈ run.submitted → future ∈ run.completed ∨
    ∃ last, run.adapter.storeFutures.get? r = some last ∧ future ≤ last
  collected : ∀ r ∈ run.adapter.finishedStores, run.AllDone r

theorem tracked_start : (start : AdapterRun R).Tracked where
  pending := fun r hr => absurd hr (notMem_empty r)
  seen := empty_subset _
  kept := fun r hr => absurd hr (notMem_empty r)
  waiting := fun r hr => absurd hr (notMem_empty r)
  sent := fun r future hget => by cases hget
  numbered := fun r future hsent => absurd hsent List.not_mem_nil
  latest := fun r future hsent => absurd hsent List.not_mem_nil
  collected := fun r hr => absurd hr (notMem_empty r)

variable {run : AdapterRun R}

theorem mem_finishedStores (hhealthy : run.adapter.isHealthy = true) (hinv : run.Tracked)
    (ids : Finset R) (r : R) :
    r ∈ run.finishedStores ids ↔
      r ∈ run.adapter.previouslyFinished ∪ ids ∧ run.adapter.Settled run.query r :=
  (LMCacheMPWorkerAdapter.mem_getFinished hhealthy hinv.pending r).1

variable {r : R}

theorem settled_of_allDone (hinv : run.Tracked) (hdone : run.AllDone r) :
    run.adapter.Settled run.query r :=
  .inr fun future hget => decide_eq_true (hdone future (hinv.sent r future hget))

theorem Tracked.allDone_of_last (hinv : run.Tracked) (horder : run.InOrder)
    (hdone : ∀ last, run.adapter.storeFutures.get? r = some last → run.query last = true) :
    run.AllDone r := by
  intro future hsent
  rcases hinv.latest r future hsent with hcompleted | ⟨last, hget, hle⟩
  · exact hcompleted
  · have hlast : last ∈ run.completed := of_decide_eq_true (hdone last hget)
    rcases hle.eq_or_lt with rfl | hlt
    · exact hlast
    · exact horder (r, future) hsent (r, last) (hinv.sent r last hget) rfl hlt hlast

theorem Tracked.allDone_of_settled (hinv : run.Tracked) (horder : run.InOrder)
    (hsettled : run.adapter.Settled run.query r) : run.AllDone r :=
  hsettled.elim (hinv.collected r) (hinv.allDone_of_last horder)

theorem Tracked.submitStoreRequest (hinv : run.Tracked) (hhealthy : run.adapter.isHealthy = true)
    {requestId : R} (hnew : requestId ∉ run.adapter.finishedStores) :
    (run.exec (.submitStoreRequest requestId)).Tracked := by
  simp only [exec, LMCacheMPWorkerAdapter.submitStoreRequest, hhealthy, if_true]
  have hself := get?_set_self run.adapter.storeFutures requestId run.nextFuture
  have hother := fun r (hne : requestId ≠ r) =>
    get?_set_ne run.adapter.storeFutures run.nextFuture hne
  have hcases : ∀ r future, (r, future) ∈ run.submitted ++ [(requestId, run.nextFuture)] →
      (r, future) ∈ run.submitted ∨ r = requestId ∧ future = run.nextFuture := fun r future hsent =>
    (List.mem_append.mp hsent).imp_right fun hlast => Prod.mk.inj (List.mem_singleton.mp hlast)
  refine ⟨fun r hr => ?_, hinv.seen, hinv.kept, hinv.waiting, fun r future hget => ?_,
    fun r future hsent => ?_, fun r future hsent => ?_, fun r hr future hsent => ?_⟩
  · obtain ⟨future, hget⟩ := hinv.pending r hr
    rcases eq_or_ne requestId r with rfl | hne
    · exact ⟨run.nextFuture, hself⟩
    · exact ⟨future, (hother r hne).trans hget⟩
  · dsimp only at hget
    rw [get?_set] at hget
    split_ifs at hget with heq
    · obtain rfl := Option.some.inj hget
      rw [← heq]
      exact List.mem_append_right _ List.mem_cons_self
    · exact List.mem_append_left _ (hinv.sent r future hget)
  · rcases hcases r future hsent with hold | ⟨_, rfl⟩
    · exact Nat.lt_succ_of_lt (hinv.numbered r future hold)
    · exact Nat.lt_succ_self _
  · rcases hcases r future hsent with hold | ⟨rfl, rfl⟩
    · refine (hinv.latest r future hold).imp_right fun hlast => ?_
      rcases eq_or_ne requestId r with rfl | hne
      · exact ⟨run.nextFuture, hself, (hinv.numbered requestId future hold).le⟩
      · obtain ⟨last, hget, hle⟩ := hlast
        exact ⟨last, (hother r hne).trans hget, hle⟩
    · exact .inr ⟨run.nextFuture, hself, le_rfl⟩
  · rcases hcases r future hsent with hold | ⟨rfl, _⟩
    · exact hinv.collected r hr future hold
    · exact absurd hr hnew

theorem Tracked.complete (hinv : run.Tracked) (future : ℕ) :
    (run.exec (.complete future)).Tracked :=
  ⟨hinv.pending, hinv.seen, hinv.kept, hinv.waiting, hinv.sent, hinv.numbered,
    fun r sent hsent => (hinv.latest r sent hsent).imp_left mem_insert_of_mem,
    fun r hr sent hsent => mem_insert_of_mem (hinv.collected r hr sent hsent)⟩

theorem Tracked.getFinished (hinv : run.Tracked) (hhealthy : run.adapter.isHealthy = true)
    {ids : Finset R} (hids : Disjoint ids run.returned) (horder : run.InOrder) :
    (run.exec (.getFinished ids)).Tracked := by
  have hmem : ∀ r, r ∈ (run.adapter.getFinished run.query ids).2.previouslyFinished ↔
      r ∈ run.adapter.previouslyFinished ∪ ids ∧ ¬ run.adapter.Settled run.query r :=
    fun r => (LMCacheMPWorkerAdapter.mem_getFinished hhealthy hinv.pending r).2
  have hfutures : ∀ r last,
      (run.adapter.getFinished run.query ids).2.storeFutures.get? r = some last ↔
        run.adapter.storeFutures.get? r = some last ∧ run.query last = false := by
    intro r last
    rw [LMCacheMPWorkerAdapter.storeFutures_getFinished hhealthy]
    exact LMCacheMPWorkerAdapter.get?_dropDone _ _ _ _
  refine ⟨fun r hr => ?_, fun r hr => ?_, fun r hr hnot => ?_, fun r hr => ?_, fun r future hget => ?_,
    hinv.numbered, fun r future hsent => ?_, fun r hr => ?_⟩
  · obtain ⟨_, hopen⟩ := (hmem r).mp hr
    obtain ⟨future, himp⟩ := not_forall.mp (not_or.mp hopen).2
    obtain ⟨hget, hrunning⟩ := Classical.not_imp.mp himp
    exact ⟨future, (hfutures r future).mpr ⟨hget, Bool.eq_false_iff.mpr hrunning⟩⟩
  · exact union_subset_union_left hinv.seen ((hmem r).mp hr).1
  · obtain ⟨hold, hnew⟩ := not_or.mp (mt mem_union.mpr hnot)
    rw [mem_finishedStores hhealthy hinv] at hnew
    have htold : r ∈ run.adapter.previouslyFinished ∪ ids :=
      mem_union.mpr ((mem_union.mp hr).imp_left fun hbefore => hinv.kept r hbefore hold)
    exact (hmem r).mpr ⟨htold, fun hsettled => hnew ⟨htold, hsettled⟩⟩
  · obtain ⟨htold, hopen⟩ := (hmem r).mp hr
    refine notMem_union.mpr ⟨?_, fun hnow => hopen ((mem_finishedStores hhealthy hinv _ r).mp hnow).2⟩
    exact (mem_union.mp htold).elim (hinv.waiting r) (disjoint_left.mp hids ·)
  · exact hinv.sent r future ((hfutures r future).mp hget).1
  · rcases hinv.latest r future hsent with hcompleted | ⟨last, hget, hle⟩
    · exact .inl hcompleted
    · cases hdone : run.query last with
      | false => exact .inr ⟨last, (hfutures r last).mpr ⟨hget, hdone⟩, hle⟩
      | true =>
        refine .inl (hinv.allDone_of_last horder (fun last' hget' => ?_) future hsent)
        obtain rfl := Option.some.inj (hget.symm.trans hget')
        exact hdone
  · have hfound := LMCacheMPWorkerAdapter.finishedStores_getFinished hhealthy hr
    rcases mem_union.mp hfound with hbefore | hnow
    · exact hinv.collected r hbefore
    · obtain ⟨last, hget, hdone⟩ := (LMCacheMPWorkerAdapter.mem_doneKeys _ _ r).mp hnow
      refine hinv.allDone_of_last horder fun last' hget' => ?_
      obtain rfl := Option.some.inj (hget.symm.trans hget')
      exact hdone

theorem Tracked.exec (hinv : run.Tracked) (event : AdapterEvent R) (h : run.Healthy event)
    (horderly : run.Orderly event) : (run.exec event).Tracked := by
  have hhealthy : run.adapter.isHealthy = true := h
  cases event with
  | submitStoreRequest requestId => exact hinv.submitStoreRequest hhealthy horderly
  | submitRetrieveRequest requestId blockIds =>
    simp only [AdapterRun.exec, LMCacheMPWorkerAdapter.submitRetrieveRequest, hhealthy, if_true]
    exact ⟨hinv.pending, hinv.seen, hinv.kept, hinv.waiting, hinv.sent,
      fun r future hsent => Nat.lt_succ_of_lt (hinv.numbered r future hsent), hinv.latest,
      hinv.collected⟩
  | complete future => exact hinv.complete future
  | getFinished ids => exact hinv.getFinished hhealthy horderly.1 horderly.2
  | heartbeat healthy =>
    exact ⟨hinv.pending, hinv.seen, hinv.kept, hinv.waiting, hinv.sent, hinv.numbered, hinv.latest,
      hinv.collected⟩

theorem Tracked.released (hinv : run.Tracked) (event : AdapterEvent R) (h : run.Healthy event)
    (horderly : run.Orderly event) : run.Released event := by
  cases event with
  | getFinished ids =>
    intro r
    rw [mem_finishedStores h hinv]
    constructor
    · rintro ⟨htold, hsettled⟩
      refine ⟨union_subset_union_left hinv.seen htold, ?_,
        hinv.allDone_of_settled horderly.2 hsettled⟩
      exact (mem_union.mp htold).elim (hinv.waiting r) (disjoint_left.mp horderly.1 ·)
    · rintro ⟨hr, hnot, hdone⟩
      refine ⟨?_, settled_of_allDone hinv hdone⟩
      exact mem_union.mpr ((mem_union.mp hr).imp_left fun hbefore => hinv.kept r hbefore hnot)
  | _ => trivial

theorem released_along (events : List (AdapterEvent R))
    (hhealthy : Along exec Healthy start events) (horderly : Along exec Orderly start events) :
    Along exec Released start events :=
  along_of_invariant (I := Tracked) (fun _ event hinv h => hinv.exec event h.1 h.2)
    (fun _ event hinv h => hinv.released event h.1 h.2) tracked_start (hhealthy.and horderly)

def inTurn : List (AdapterEvent ℕ) :=
  [.submitStoreRequest 0, .submitStoreRequest 0, .getFinished {0}, .complete 0, .getFinished {0},
    .complete 1, .getFinished ∅]

theorem released_along_inTurn :
    Along exec Released start inTurn ∧ (Execution.final exec start inTurn).returned = {0} :=
  ⟨released_along inTurn ⟨rfl, rfl, rfl, rfl, rfl, rfl, rfl, trivial⟩ (by decide), by decide⟩

def twoPrefills : List (AdapterEvent ℕ) :=
  [.submitStoreRequest 0, .submitStoreRequest 0, .complete 1, .getFinished {0}]

theorem twoPrefills_early :
    Along exec Healthy start twoPrefills ∧ ¬ Along exec Released start twoPrefills := by
  refine ⟨⟨rfl, rfl, rfl, rfl, trivial⟩, fun h => ?_⟩
  have hreleased := (h.2.2.2.1 0).mp (by decide)
  exact absurd (hreleased.2.2 0 (by decide)) (by decide)

end AdapterRun

end LMCache
