import LMCache.Fidelity.StoreReferences

namespace LMCache.Fidelity.StoreEngine

open Holding

variable {F E D Λ K : Type}

section Releases

variable (py : StoreBuiltins F D) (engine : StoreEngine F E) (request : CacheRequest)
  (mask : Option (List Bool)) (configs : Option (RequestConfigs F)) (allocations : Allocations)
  (faults : StoreFaults F Λ) (level : Option FidelityLevel)
  (segments : List (ℕ × ℕ × EngineKey F))

def NoChunk : Prop :=
  faults.loop 0 = true ∨ chunksAllocated allocations.chunk 0 segments.length = 0

structure StoreReturns : Prop where
  loop : loopReturns faults.loop allocations.chunk 0 segments.length
  fromGpu : faults.fromGpu = false
  puts : engine.storePutsReturn py request mask configs allocations faults level
    ((allocateChunks allocations.chunk 0 segments).map fun segment => segment.2.2) = true

def storedRefs : Holding StoreObject Unit := do
  let stored ← allocateRefs faults.loop allocations.chunk 0 segments
  if stored.isEmpty then pure ()
  else if faults.fromGpu then raise
  else
    engine.storePutsRefs py request mask configs allocations faults level
      (stored.map fun segment => segment.2.2)

variable {py engine request mask configs allocations faults level segments}

theorem storedRefs_of_noChunk (h : NoChunk allocations faults segments) :
    SameMoves (engine.storedRefs py request mask configs allocations faults level segments)
      (pure () : Holding StoreObject Unit) := by
  rw [storedRefs]
  cases hraises : faults.loop 0 with
  | true =>
    have hraise : allocateRefs faults.loop allocations.chunk 0 segments = raise := by
      cases segments with
      | nil => rw [allocateRefs, if_pos hraises]
      | cons segment segments => rw [allocateRefs, if_pos hraises]
    rw [hraise]
    exact ⟨rfl, rfl⟩
  | false =>
    have hnone := h.resolve_left (hraises ▸ Bool.false_ne_true)
    have hempty : allocateRefs faults.loop allocations.chunk 0 segments = pure [] := by
      cases segments with
      | nil => rw [allocateRefs, if_neg (hraises ▸ Bool.false_ne_true)]
      | cons segment segments =>
        have hfirst : allocations.chunk 0 = false := by
          by_contra hnot
          rw [List.length_cons, chunksAllocated, if_pos (eq_true_of_ne_false hnot)] at hnone
          cases hnone
        rw [allocateRefs, if_neg (hraises ▸ Bool.false_ne_true),
          if_neg (hfirst ▸ Bool.false_ne_true)]
    rw [hempty, Holding.pure_bind]
    exact .refl _

theorem length_allocateChunks (allocated : ℕ → Bool) (segments : List (ℕ × ℕ × K)) :
    (allocateChunks allocated 0 segments).length = chunksAllocated allocated 0 segments.length := by
  rw [allocateChunks_eq, List.length_take]
  exact Nat.min_eq_left (chunksAllocated_le _ _ _)

theorem leaves_storedRefs (h : ¬ NoChunk allocations faults segments) :
    Leaves 0 (engine.storedRefs py request mask configs allocations faults level segments)
      fun _ => 0 := by
  rw [NoChunk, not_or] at h
  refine (leaves_allocateRefs_first (eq_false_of_ne_true h.1) h.2).bind fun stored hstored => ?_
  have hlen : stored.length ≠ 0 := by
    rw [result_allocateRefs] at hstored
    split at hstored
    · rw [← Option.some.inj hstored, length_allocateChunks]
      exact h.2
    · cases hstored
  rw [if_neg (fun hempty => hlen (List.isEmpty_iff_length_eq_zero.mp hempty))]
  split
  · exact leaves_raise (coe_ne_zero (by rw [chunksFrom, List.length_map, List.length_range']) hlen)
  · have hkeys : (stored.map fun segment => segment.2.2).length = stored.length :=
      List.length_map _
    rw [chunksFrom, ← List.range_eq_range', ← chunkObjects, ← hkeys]
    exact leaves_storePutsRefs (hkeys.trans_ne hlen)

theorem isSome_storedRefs (h : ¬ NoChunk allocations faults segments) :
    (engine.storedRefs py request mask configs allocations faults level
      segments).result.isSome = true ↔
      StoreReturns py engine request mask configs allocations faults level segments := by
  have hlen : (allocateChunks allocations.chunk 0 segments).length ≠ 0 := by
    rw [length_allocateChunks]
    exact fun hnone => h (.inr hnone)
  have hempty : ¬ (allocateChunks allocations.chunk 0 segments).isEmpty = true :=
    fun hempty => hlen (List.isEmpty_iff_length_eq_zero.mp hempty)
  rw [storedRefs, result_bind, result_allocateRefs]
  split
  · next hloop =>
    rw [Option.bind_some, if_neg hempty]
    cases hfromGpu : faults.fromGpu with
    | true => exact iff_of_false Bool.false_ne_true fun hreturns =>
        Bool.false_ne_true (hreturns.fromGpu.symm.trans hfromGpu)
    | false =>
      rw [if_neg Bool.false_ne_true, isSome_storePutsRefs]
      exact ⟨fun hputs => ⟨hloop, hfromGpu, hputs⟩, StoreReturns.puts⟩
  · next hloop => exact iff_of_false Bool.false_ne_true fun hreturns => hloop hreturns.loop

theorem remaining_storedRefs_eq_zero_iff :
    (engine.storedRefs py request mask configs allocations faults level
      segments).remaining = 0 ↔ NoChunk allocations faults segments ∨
      StoreReturns py engine request mask configs allocations faults level segments := by
  by_cases h : NoChunk allocations faults segments
  · rw [(storedRefs_of_noChunk h).remaining_eq]
    exact iff_of_true rfl (.inl h)
  · rw [(leaves_storedRefs h).remaining_eq_zero_iff fun _ _ => rfl, isSome_storedRefs h,
      or_iff_right h]

theorem sameMoves_storeRefs {normalized : Option (RequestConfigs F)}
    (hserving : (!engine.healthy || engine.passive || engine.frozen) = false)
    (hconfigs : engine.normalizeConfigs py.toBuiltins configs request.tokens? request.hashes?
      request.offsets? = .ok (normalized, level))
    (hsegments : engine.segmentsOf request mask normalized = .ok segments) :
    SameMoves (engine.storeRefs py request mask configs allocations faults)
      (engine.storedRefs py request mask normalized allocations faults level segments) := by
  rw [storeRefs, if_neg (hserving ▸ Bool.false_ne_true), hconfigs, ok_bind]
  dsimp only
  rw [hsegments, ok_bind, storedRefs]
  refine .bind_right fun stored => ?_
  split
  · exact .refl _
  · split
    · exact .refl _
    · refine .bind_idle fun _ => ?_
      exact (SameMoves.bind_idle fun _ => .refl _).trans (sameMoves_ofExcept _)

theorem storeRefs_idle
    (h : ∀ normalized level segments, engine.healthy = true → engine.passive = false →
      engine.frozen = false → engine.normalizeConfigs py.toBuiltins configs request.tokens?
        request.hashes? request.offsets? = .ok (normalized, level) →
      engine.segmentsOf request mask normalized ≠ .ok segments) :
    SameMoves (engine.storeRefs py request mask configs allocations faults)
      (pure () : Holding StoreObject Unit) := by
  cases hserving : !engine.healthy || engine.passive || engine.frozen with
  | true =>
    rw [storeRefs, hserving]
    exact .refl _
  | false =>
    rw [storeRefs, if_neg (hserving ▸ Bool.false_ne_true)]
    simp only [Bool.or_eq_false_iff, Bool.not_eq_eq_eq_not, Bool.not_false] at hserving
    cases hconfigs : engine.normalizeConfigs py.toBuiltins configs request.tokens?
        request.hashes? request.offsets? with
    | error error => exact ⟨rfl, rfl⟩
    | ok pair =>
      obtain ⟨normalized, level⟩ := pair
      rw [ok_bind]
      dsimp only
      cases hsegments : engine.segmentsOf request mask normalized with
      | error error => exact ⟨rfl, rfl⟩
      | ok segments =>
        have hnever := h normalized level segments hserving.1.1 hserving.1.2 hserving.2 hconfigs
        exact absurd hsegments hnever

theorem remaining_storeRefs_eq_zero_iff (py : StoreBuiltins F D) (engine : StoreEngine F E)
    (request : CacheRequest) (mask : Option (List Bool)) (configs : Option (RequestConfigs F))
    (allocations : Allocations) (faults : StoreFaults F Λ) :
    (engine.storeRefs py request mask configs allocations faults).remaining = 0 ↔
      (engine.healthy = true → engine.passive = false → engine.frozen = false →
        ∀ normalized level segments, engine.normalizeConfigs py.toBuiltins configs request.tokens?
          request.hashes? request.offsets? = .ok (normalized, level) →
        engine.segmentsOf request mask normalized = .ok segments →
        NoChunk allocations faults segments ∨ StoreReturns py engine request mask normalized
          allocations faults level segments) := by
  by_cases h : ∃ normalized level segments, engine.healthy = true ∧ engine.passive = false ∧
      engine.frozen = false ∧ engine.normalizeConfigs py.toBuiltins configs request.tokens?
        request.hashes? request.offsets? = .ok (normalized, level) ∧
      engine.segmentsOf request mask normalized = .ok segments
  · obtain ⟨normalized, level, segments, hhealthy, hpassive, hfrozen, hconfigs, hsegments⟩ := h
    have hserving : (!engine.healthy || engine.passive || engine.frozen) = false := by
      rw [hhealthy, hpassive, hfrozen]
      rfl
    rw [(sameMoves_storeRefs hserving hconfigs hsegments).remaining_eq,
      remaining_storedRefs_eq_zero_iff]
    constructor
    · intro hreleases _ _ _ normalized' level' segments' hconfigs' hsegments'
      obtain ⟨rfl, rfl⟩ := Prod.mk.inj (Except.ok.inj (hconfigs.symm.trans hconfigs'))
      obtain rfl := Except.ok.inj (hsegments.symm.trans hsegments')
      exact hreleases
    · exact fun hreleases => hreleases hhealthy hpassive hfrozen _ _ _ hconfigs hsegments
  · have hnever : ∀ normalized level segments, engine.healthy = true → engine.passive = false →
        engine.frozen = false → engine.normalizeConfigs py.toBuiltins configs request.tokens?
          request.hashes? request.offsets? = .ok (normalized, level) →
        engine.segmentsOf request mask normalized ≠ .ok segments :=
      fun normalized level segments hhealthy hpassive hfrozen hconfigs hsegments =>
        h ⟨normalized, level, segments, hhealthy, hpassive, hfrozen, hconfigs, hsegments⟩
    rw [(storeRefs_idle hnever).remaining_eq]
    refine iff_of_true rfl ?_
    intro hhealthy hpassive hfrozen normalized level segments hconfigs hsegments
    exact absurd hsegments (hnever normalized level segments hhealthy hpassive hfrozen hconfigs)

end Releases

def localCpu : AllocatorBackend (EngineKey ℤ) Unit where
  cname := "LocalCPUBackend"
  contains := fun _ => false
  allocate := fun _ _ => .granted

def noFault : CopyFaults := ⟨fun _ => false, fun _ => false⟩

def cpuAndDisk : PutFaults (EngineKey ℤ) Unit where
  manager := ⟨some localCpu, [⟨"LocalCPUBackend", localCpu⟩, ⟨"LocalDiskBackend", localCpu⟩], []⟩
  copies := fun _ => noFault
  submit := fun _ => false

def gpuCopy (raises : Bool) : StoreFaults ℤ Unit where
  loop := fun _ => false
  fromGpu := raises
  isEncoded := fun _ => false
  encode := noFault
  layout := fun _ => ()
  puts := fun _ => cpuAndDisk

theorem not_remaining_raised :
    (dualEngine.storeRefs tenfold (.tokens [1, 2, 3]) none none (roomFor 2)
      (gpuCopy true)).remaining ≠ 0 ∧
    (dualEngine.storeRefs tenfold (.tokens [1, 2, 3, 4, 5, 6]) none none (roomFor 1)
      (gpuCopy false)).remaining ≠ 0 := by
  decide

end LMCache.Fidelity.StoreEngine
