import LMCache.Foundations.Execution
import LMCache.Distributed.L1WriteReservation
import Mathlib.Data.List.Sort
import LMCache.StorageOps.Bitmap

namespace LMCache

structure AdapterDescriptor where
  index : ℕ
deriving DecidableEq, Repr

structure LoadSelection where
  globalBitmap : Bitmap
  plan : Dict ℕ Bitmap

namespace DefaultPrefetchPolicy

def assign (lookupResults : Dict ℕ Bitmap) (s : LoadSelection) (ad : AdapterDescriptor) :
    LoadSelection :=
  match lookupResults.get? ad.index with
  | none => s
  | some currBitmap =>
      let localBitmap := s.globalBitmap.and currBitmap
      let globalBitmap := s.globalBitmap.and localBitmap.not
      if localBitmap.popcount = 0 then { s with globalBitmap := globalBitmap }
      else { globalBitmap := globalBitmap, plan := s.plan.set ad.index localBitmap }

def selectLoadPlan (numKeys : ℕ) (lookupResults : Dict ℕ Bitmap) (adapters : List AdapterDescriptor) :
    Dict ℕ Bitmap :=
  let globalBitmap := lookupResults.values.foldl Bitmap.or (.ofSize numKeys)
  ((adapters.insertionSort (fun a b => a.index ≤ b.index)).foldl (assign lookupResults)
    ⟨globalBitmap, .empty⟩).plan

end DefaultPrefetchPolicy

def PlanWithin (n : ℕ) (plan lookupResults : Dict ℕ Bitmap) : Prop :=
  ∀ a bm, plan.get? a = some bm → bm.size = n ∧
    ∃ lk, lookupResults.get? a = some lk ∧ ∀ i, bm.test i = true → lk.test i = true

def Sized (n : ℕ) (lookupResults : Dict ℕ Bitmap) : Prop :=
  ∀ a bm, lookupResults.get? a = some bm → bm.size = n

namespace DefaultPrefetchPolicy

variable {n : ℕ} {lookupResults : Dict ℕ Bitmap}

theorem size_foldl_or {bitmaps : List Bitmap} (h : ∀ bm ∈ bitmaps, bm.size = n) {b : Bitmap}
    (hb : b.size = n) : (bitmaps.foldl Bitmap.or b).size = n := by
  induction bitmaps generalizing b with
  | nil => exact hb
  | cons bm bitmaps ih =>
    refine ih (fun c hc => h c (List.mem_cons_of_mem _ hc)) ?_
    rw [Bitmap.size_or, hb, h bm List.mem_cons_self, Nat.min_self]

theorem within_assign (hsized : Sized n lookupResults) {s : LoadSelection}
    (hglobal : s.globalBitmap.size = n) (h : PlanWithin n s.plan lookupResults)
    (ad : AdapterDescriptor) :
    (assign lookupResults s ad).globalBitmap.size = n ∧
      PlanWithin n (assign lookupResults s ad).plan lookupResults := by
  simp only [assign]
  cases hget : lookupResults.get? ad.index with
  | none => exact ⟨hglobal, h⟩
  | some curr =>
    have hcurr := hsized ad.index curr hget
    have hsize : (s.globalBitmap.and (s.globalBitmap.and curr).not).size = n := by
      simp [hglobal, hcurr]
    dsimp only
    split_ifs with hempty
    · exact ⟨hsize, h⟩
    · refine ⟨hsize, fun a bm hbm => ?_⟩
      rw [Dict.get?_set] at hbm
      split_ifs at hbm with ha
      · subst ha
        obtain rfl := Option.some.inj hbm
        refine ⟨by simp [hglobal, hcurr], curr, hget, fun i hi => ?_⟩
        rw [Bitmap.test_and, Bool.and_eq_true] at hi
        exact hi.2
      · exact h a bm hbm

theorem within_selectLoadPlan (hsized : Sized n lookupResults) (adapters : List AdapterDescriptor) :
    PlanWithin n (selectLoadPlan n lookupResults adapters) lookupResults := by
  have hfold : ∀ (ads : List AdapterDescriptor) (s : LoadSelection), s.globalBitmap.size = n →
      PlanWithin n s.plan lookupResults →
      PlanWithin n (ads.foldl (assign lookupResults) s).plan lookupResults := by
    intro ads
    induction ads with
    | nil => exact fun _ _ h => h
    | cons ad ads ih =>
      intro s hglobal h
      obtain ⟨hglobal', h'⟩ := within_assign hsized hglobal h ad
      exact ih _ hglobal' h'
  refine hfold _ _ (size_foldl_or (fun bm hbm => ?_) rfl) (fun a bm hbm => by simp at hbm)
  obtain ⟨a, ha⟩ := (Dict.mem_values_iff _ _).mp hbm
  exact hsized a bm ha

end DefaultPrefetchPolicy

def trimLoadPlanToFirstNKeys (loadPlan : Dict ℕ Bitmap) (numKeys n : ℕ) : Dict ℕ Bitmap :=
  if n = 0 then .empty
  else
    let maskBitmap := Bitmap.ofPrefix numKeys n
    loadPlan.filterMapValues (fun bitmap =>
      let newBitmap := bitmap.and maskBitmap
      if newBitmap.popcount = 0 then none else some newBitmap)

def trimLoadPlanToPrefix (loadPlan : Dict ℕ Bitmap) (numKeys : ℕ) : Dict ℕ Bitmap :=
  let mergedPlan := loadPlan.values.foldl Bitmap.or (.ofSize numKeys)
  trimLoadPlanToFirstNKeys loadPlan numKeys mergedPlan.clo

def mergeBitmaps (bitmaps : List Bitmap) (numKeys : ℕ) : Bitmap :=
  if bitmaps.isEmpty then .ofSize 0 else bitmaps.foldl Bitmap.or (.ofSize numKeys)

inductive PrefetchPhase where
  | lookup
  | planAndLoad
deriving DecidableEq, Repr

structure InFlightPrefetchRequest (K : Type) where
  keys : List K
  extraCount : ℤ
  phase : PrefetchPhase
  pendingLookupTasks : List ℕ
  lookupResults : Dict ℕ Bitmap
  loadPlan : Dict ℕ Bitmap
  pendingLoadTasks : List ℕ
  loadResults : Dict ℕ Bitmap
  writeReservedKeys : List K
  writeReservedObjs : Dict K MemoryObj

inductive PrefetchProgress (K : Type) where
  | running
  | closing (calls : List (L1Step K)) (prefixHits : ℕ)
  | completed (prefixHits : ℕ)
deriving DecidableEq

structure PrefetchState (K : Type) where
  l1 : L1Manager K
  now : ℕ
  adapters : List AdapterDescriptor
  request : InFlightPrefetchRequest K
  unlocks : List (ℕ × List K)
  loadTasks : List (ℕ × List K × List MemoryObj)
  progress : PrefetchProgress K

inductive PrefetchEvent (K : Type) where
  | lookupDone (adapterIndex : ℕ) (result : Bitmap) (granted : Bool)
  | loadDone (adapterIndex : ℕ) (result : Bitmap)
  | call
  | other (op : L1Step K)

namespace PrefetchState

variable {K : Type} [DecidableEq K]

def startLookupPhase (l1 : L1Manager K) (now : ℕ) (adapters : List AdapterDescriptor) (keys : List K)
    (extraCount : ℤ) : PrefetchState K where
  l1 := l1
  now := now
  adapters := adapters
  request :=
    { keys := keys
      extraCount := extraCount
      phase := .lookup
      pendingLookupTasks := List.range adapters.length
      lookupResults := .empty
      loadPlan := .empty
      pendingLoadTasks := []
      loadResults := .empty
      writeReservedKeys := []
      writeReservedObjs := .empty }
  unlocks := []
  loadTasks := []
  progress := if adapters.isEmpty then .completed 0 else .running

variable (s : PrefetchState K)

def completeAfter (calls : List (L1Step K)) (prefixHits : ℕ) : PrefetchState K :=
  { s with progress := if calls.isEmpty then .completed prefixHits else .closing calls prefixHits }

def unlockUnneededKeys : PrefetchState K :=
  { s with unlocks := s.unlocks ++ s.request.lookupResults.items.filterMap (fun p =>
      let planBitmap := (s.request.loadPlan.get? p.1).getD (.ofSize s.request.keys.length)
      let unlockKeys := (p.2.and planBitmap.not).gather s.request.keys
      if unlockKeys.isEmpty then none else some (p.1, unlockKeys)) }

def unlockAllPlanKeys : PrefetchState K :=
  { s with unlocks := s.unlocks ++ s.request.loadPlan.items.map (fun p =>
      (p.1, p.2.gather s.request.keys)) }

def unlockAllLookups : PrefetchState K :=
  { s with unlocks := s.unlocks ++ s.request.lookupResults.items.filterMap (fun p =>
      let unlockKeys := p.2.gather s.request.keys
      if unlockKeys.isEmpty then none else some (p.1, unlockKeys)) }

def reservedOf (writeResults : Dict K L1OperationResult) : List (K × MemoryObj) :=
  writeResults.items.filterMap (fun p =>
    if p.2.1 = .success then p.2.2.map (fun memObj => (p.1, memObj)) else none)

def reservedBitmap (keys reservedKeys : List K) : Bitmap :=
  keys.zipIdx.foldl (fun bitmap p => if p.1 ∈ reservedKeys then bitmap.set p.2 else bitmap)
    (.ofSize keys.length)

def cleanUp (keys : List K) : List (L1Step K) :=
  if keys.isEmpty then [] else [.finishWrite keys, .delete keys]

def recordReservations (request : InFlightPrefetchRequest K) (writeResults : Dict K L1OperationResult) :
    InFlightPrefetchRequest K :=
  let reserved := reservedOf writeResults
  { request with
    writeReservedKeys := request.writeReservedKeys ++ reserved.map Prod.fst
    writeReservedObjs := reserved.foldl (fun d p => d.set p.1 p.2) request.writeReservedObjs }

def submitLoadTasks : PrefetchState K :=
  { s with
    request := { s.request with pendingLoadTasks := s.request.loadPlan.keys }
    loadTasks := s.loadTasks ++ s.request.loadPlan.items.map (fun p =>
      let perAdapterKeys := p.2.gather s.request.keys
      (p.1, perAdapterKeys, perAdapterKeys.filterMap s.request.writeReservedObjs.get?)) }

def reserveBuffers (loadPlan trimmedPlan : Dict ℕ Bitmap) (granted : Bool) : PrefetchState K :=
  let numKeys := s.request.keys.length
  let keysToReserve := (mergeBitmaps trimmedPlan.values numKeys).gather s.request.keys
  let reservation := s.l1.reserveWrite s.now granted keysToReserve
    (List.replicate keysToReserve.length true) .new
  let request := recordReservations s.request reservation.1
  let prefixLength := (reservedBitmap request.keys request.writeReservedKeys).clo
  { s with
    l1 := reservation.2
    request :=
      { request with
        loadPlan := trimLoadPlanToFirstNKeys loadPlan numKeys prefixLength } }.unlockUnneededKeys

def enterLoadPhase : PrefetchState K :=
  { s with request := { s.request with phase := .planAndLoad } }

def transitionToLoadPhase (granted : Bool) : PrefetchState K :=
  let s := s.enterLoadPhase
  let numKeys := s.request.keys.length
  let loadPlan := DefaultPrefetchPolicy.selectLoadPlan numKeys s.request.lookupResults s.adapters
  let trimmedPlan := trimLoadPlanToPrefix loadPlan numKeys
  if trimmedPlan.items.isEmpty then s.unlockAllLookups.completeAfter [] 0
  else
    let s := s.reserveBuffers loadPlan trimmedPlan granted
    if s.request.loadPlan.items.isEmpty then
      s.completeAfter (cleanUp s.request.writeReservedKeys) 0
    else s.submitLoadTasks

def resultBitmap (request : InFlightPrefetchRequest K) : Bitmap :=
  request.loadPlan.items.foldl (fun result p =>
    match request.loadResults.get? p.1 with
    | none => result
    | some loadBitmap => (loadBitmap.gather p.2.getIndices).foldl Bitmap.set result)
    (.ofSize request.keys.length)

def finalCalls (loadedKeys failedKeys nonPrefixLoaded : List K) (extraCount : ℤ) : List (L1Step K) :=
  (if loadedKeys.isEmpty then [] else [.finishWriteAndReserveRead loadedKeys extraCount]) ++
    cleanUp failedKeys ++
    if nonPrefixLoaded.isEmpty then [] else [.finishRead nonPrefixLoaded extraCount]

def finalizeLoad : PrefetchState K :=
  let result := resultBitmap s.request
  let loadedKeys := result.gather s.request.keys
  let failedKeys := s.request.writeReservedKeys.filter (fun k => decide (k ∉ loadedKeys))
  let prefixHits := result.clo
  let prefixMask := Bitmap.ofPrefix s.request.keys.length prefixHits
  let nonPrefixLoaded := (result.and prefixMask.not).gather s.request.keys
  s.unlockAllPlanKeys.completeAfter
    (finalCalls loadedKeys failedKeys nonPrefixLoaded s.request.extraCount) prefixHits

variable (adapterIndex : ℕ) (result : Bitmap)

def recordLookup : PrefetchState K :=
  { s with
    request :=
      { s.request with
        lookupResults := s.request.lookupResults.set adapterIndex result
        pendingLookupTasks := s.request.pendingLookupTasks.erase adapterIndex } }

def recordLoad : PrefetchState K :=
  { s with
    request :=
      { s.request with
        loadResults := s.request.loadResults.set adapterIndex result
        pendingLoadTasks := s.request.pendingLoadTasks.erase adapterIndex } }

def processLookupCompletion (granted : Bool) : PrefetchState K :=
  if s.request.phase ≠ .lookup then s
  else if adapterIndex ∉ s.request.pendingLookupTasks then s
  else
    let s := s.recordLookup adapterIndex result
    if s.request.pendingLookupTasks.isEmpty then s.transitionToLoadPhase granted else s

def processLoadCompletion : PrefetchState K :=
  if s.request.phase ≠ .planAndLoad then s
  else if adapterIndex ∉ s.request.pendingLoadTasks then s
  else
    let s := s.recordLoad adapterIndex result
    if s.request.pendingLoadTasks.isEmpty then s.finalizeLoad else s

def exec : PrefetchEvent K → PrefetchState K
  | .lookupDone adapterIndex result granted => s.processLookupCompletion adapterIndex result granted
  | .loadDone adapterIndex result => s.processLoadCompletion adapterIndex result
  | .call =>
      match s.progress with
      | .closing (op :: calls) prefixHits =>
          { s with l1 := s.l1.step s.now op }.completeAfter calls prefixHits
      | _ => s
  | .other op => { s with l1 := s.l1.step s.now op, now := op.tick s.now }

end PrefetchState

end LMCache
