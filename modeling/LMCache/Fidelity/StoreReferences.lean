import LMCache.Fidelity.LayerWrites
import LMCache.StorageBackend.BatchedPut

namespace LMCache.Fidelity

open Multiset

inductive StoreObject where
  | chunk (i : ℕ)
  | encoded (i : ℕ)
  | copy (put : ℕ) (cname : String) (i : ℕ)
deriving DecidableEq

def chunkObjects (chunks : List ℕ) : List StoreObject := chunks.map .chunk

-- what raises in one store: the loop with so many chunks allocated, the copy from the GPU, the
-- encoding and the puts; isEncoded is what the metadata of a chunk's object says
structure StoreFaults (F Λ : Type) where
  loop : ℕ → Bool
  fromGpu : Bool
  isEncoded : ℕ → Bool
  encode : CopyFaults
  layout : StoreObject → Λ
  puts : ℕ → PutFaults (EngineKey F) Λ

namespace StoreFaults

variable {F Λ : Type} (faults : StoreFaults F Λ)

def putRefs (put : ℕ) (keys : List (EngineKey F)) (memoryObjs : List StoreObject)
    (location : Option (List Char)) : Holding StoreObject Unit :=
  (faults.puts put).batchedPutRefs faults.layout (StoreObject.copy put) keys memoryObjs
    (location.map String.ofList)

def putRaises (put : ℕ) (keys : List (EngineKey F)) (memoryObjs : List StoreObject)
    (location : Option (List Char)) : Bool :=
  (faults.puts put).raises faults.layout keys memoryObjs (location.map String.ofList)

end StoreFaults

namespace StoreEngine

open Holding

variable {F E Λ K : Type}

def allocateRefs (raises allocated : ℕ → Bool) :
    ℕ → List (ℕ × ℕ × K) → Holding StoreObject (List (ℕ × ℕ × K))
  | i, [] => if raises i then raise else pure []
  | i, segment :: segments =>
      if raises i then raise
      else if allocated i then do
        take (.chunk i)
        let rest ← allocateRefs raises allocated (i + 1) segments
        return segment :: rest
      else pure []

section Encoding

variable (engine : StoreEngine F E) (faults : StoreFaults F Λ) (dtypes : List Utils.TorchDtype)
  (allocated : ℕ → Bool)

def encodeRef (i : ℕ) : Holding StoreObject StoreObject :=
  match engine.baseCodec with
  | .fake => pure (.chunk i)
  | .int8 =>
      if faults.isEncoded i then pure (.chunk i)
      else if dtypes.any (fun dtype => !dtype.isFloatingPoint) || faults.encode.before i then raise
      else if allocated i then do
        take (.encoded i)
        if faults.encode.after i then raise else pure (.encoded i)
      else raise

def encodeBaseVariantRef (i : ℕ) : Holding StoreObject StoreObject := do
  let encoded ← engine.encodeRef faults dtypes allocated i
  if encoded = .chunk i then do
    take (.chunk i)
    return encoded
  else pure encoded

def encodeMemoryObjRef (level : Option FidelityLevel) (i : ℕ) : Holding StoreObject StoreObject :=
  if level ≠ some .base then pure (.chunk i)
  else do
    let encoded ← engine.encodeRef faults dtypes allocated i
    if encoded ≠ .chunk i then do
      drop [.chunk i]
      return encoded
    else pure encoded

end Encoding

section Store

variable (py : StoreBuiltins F D) (engine : StoreEngine F E) (request : CacheRequest)
  (mask : Option (List Bool)) (configs : Option (RequestConfigs F)) (allocations : Allocations)
  (faults : StoreFaults F Λ)

def dualPutsRefs (targets : Option (List Char) × Option (List Char))
    (keys fullKeys : List (EngineKey F)) (chunks : List ℕ) : Holding StoreObject Unit := do
  let baseMemoryObjs ← each
    (engine.encodeBaseVariantRef faults engine.getDtypes (allocations.encoded 0)) chunks
  faults.putRefs 0 fullKeys (chunkObjects chunks) targets.2
  faults.putRefs 1 keys baseMemoryObjs targets.1

def singlePutsRefs (level : Option FidelityLevel) (keys : List (EngineKey F)) (chunks : List ℕ) :
    Holding StoreObject Unit := do
  let memoryObjs ← each
    (engine.encodeMemoryObjRef faults engine.getDtypes (allocations.encoded 0) level) chunks
  faults.putRefs 0 keys memoryObjs engine.storeLocation

def storePutsRefs (level : Option FidelityLevel) (keys : List (EngineKey F)) :
    Holding StoreObject Unit :=
  let chunks := List.range keys.length
  if engine.shouldDualStoreBase level then do
    let targets ← ofExcept (engine.dualStoreTargets py)
    let fullKeys ← ofExcept (engine.buildVariantKeys request mask configs .full)
    if fullKeys.length ≠ keys.length then raise
    else engine.dualPutsRefs allocations faults targets keys fullKeys chunks
  else engine.singlePutsRefs allocations faults level keys chunks

def storeRefs : Holding StoreObject Unit :=
  if !engine.healthy || engine.passive || engine.frozen then pure ()
  else do
    let (configs, level) ← ofExcept (engine.normalizeConfigs py.toBuiltins configs
      request.tokens? request.hashes? request.offsets?)
    let segments ← ofExcept (engine.segmentsOf request mask configs)
    let stored ← allocateRefs faults.loop allocations.chunk 0 segments
    if stored.isEmpty then pure ()
    else if faults.fromGpu then raise
    else do
      engine.storePutsRefs py request mask configs allocations faults level
        (stored.map fun segment => segment.2.2)
      let _ ← ofExcept (engine.cleanupBaseVariant py request mask configs level)
      return

end Store

section Loop

variable {raises allocated : ℕ → Bool} {held : Multiset StoreObject}

def chunksFrom (i n : ℕ) : List StoreObject := (List.range' i n).map .chunk

theorem leaves_allocateRefs (i : ℕ) (segments : List (ℕ × ℕ × K)) (h : held ≠ 0) :
    Leaves held (allocateRefs raises allocated i segments)
      fun stored => (chunksFrom i stored.length : Multiset StoreObject) + held := by
  induction segments generalizing i held with
  | nil =>
    rw [allocateRefs]
    split
    · exact leaves_raise h
    · exact leaves_pure (zero_add held).symm
  | cons segment segments ih =>
    rw [allocateRefs]
    split
    · exact leaves_raise h
    · split
      · refine (leaves_take _ _).bind fun _ _ => ?_
        refine (ih (i + 1) cons_ne_zero).bind fun stored _ => leaves_pure ?_
        rw [List.length_cons, chunksFrom, chunksFrom, List.range'_succ, List.map_cons,
          ← cons_coe, cons_add, add_cons]
      · exact leaves_pure (zero_add held).symm

theorem leaves_allocateRefs_first {i : ℕ} {segments : List (ℕ × ℕ × K)} (hraises : raises i = false)
    (hallocated : chunksAllocated allocated i segments.length ≠ 0) :
    Leaves 0 (allocateRefs raises allocated i segments)
      fun stored => (chunksFrom i stored.length : Multiset StoreObject) := by
  cases segments with
  | nil => exact absurd rfl hallocated
  | cons segment segments =>
    have hfirst : allocated i = true := by
      by_contra hnot
      rw [List.length_cons, chunksAllocated, if_neg hnot] at hallocated
      exact hallocated rfl
    rw [allocateRefs, if_neg (hraises ▸ Bool.false_ne_true), if_pos hfirst]
    refine (leaves_take _ _).bind fun _ _ => ?_
    refine (leaves_allocateRefs (i + 1) segments cons_ne_zero).bind fun stored _ =>
      leaves_pure ?_
    rw [List.length_cons, chunksFrom, chunksFrom, List.range'_succ, List.map_cons,
      ← cons_coe, add_cons, add_zero]

def loopReturns (raises allocated : ℕ → Bool) (i segments : ℕ) : Prop :=
  ∀ j ≤ chunksAllocated allocated i segments, raises (i + j) = false

instance (i segments : ℕ) : Decidable (loopReturns raises allocated i segments) :=
  inferInstanceAs (Decidable (∀ j ≤ chunksAllocated allocated i segments, raises (i + j) = false))

theorem loopReturns_succ {i segments : ℕ} (h : allocated i = true) :
    loopReturns raises allocated i (segments + 1) ↔
      raises i = false ∧ loopReturns raises allocated (i + 1) segments := by
  rw [loopReturns, chunksAllocated, if_pos h, loopReturns]
  constructor
  · intro hall
    refine ⟨hall 0 (Nat.zero_le _), fun j hj => ?_⟩
    rw [Nat.add_right_comm]
    exact hall (j + 1) (Nat.succ_le_succ hj)
  · rintro ⟨hfirst, hrest⟩ j hj
    cases j with
    | zero => exact hfirst
    | succ j =>
      rw [← Nat.add_assoc, Nat.add_right_comm]
      exact hrest j (Nat.le_of_succ_le_succ hj)

theorem loopReturns_of_none {i segments : ℕ} (h : chunksAllocated allocated i segments = 0) :
    loopReturns raises allocated i segments ↔ raises i = false := by
  rw [loopReturns, h]
  constructor
  · exact fun hall => hall 0 (le_refl 0)
  · intro hfirst j hj
    rw [Nat.le_zero.mp hj]
    exact hfirst

theorem result_allocateRefs (i : ℕ) (segments : List (ℕ × ℕ × K)) :
    (allocateRefs raises allocated i segments).result =
      if loopReturns raises allocated i segments.length then
        some (allocateChunks allocated i segments) else none := by
  induction segments generalizing i with
  | nil =>
    rw [allocateRefs, if_congr (loopReturns_of_none rfl) rfl rfl]
    cases raises i with
    | false => rfl
    | true => rfl
  | cons segment segments ih =>
    rw [allocateRefs, allocateChunks, List.length_cons]
    cases hallocated : allocated i with
    | false =>
      have hnone : chunksAllocated allocated i (segments.length + 1) = 0 := by
        rw [chunksAllocated, hallocated]
        rfl
      rw [if_congr (loopReturns_of_none hnone) rfl rfl]
      cases raises i with
      | false => rfl
      | true => rfl
    | true =>
      rw [if_congr (loopReturns_succ hallocated) rfl rfl]
      cases raises i with
      | true => rfl
      | false =>
        simp only [Bool.false_eq_true, if_false, if_true, result_bind, result_take,
          Option.bind_some, ih (i + 1), true_and]
        split
        · rfl
        · rfl

end Loop

section Parts

variable {engine : StoreEngine F E} {faults : StoreFaults F Λ} {dtypes : List Utils.TorchDtype}
  {allocated : ℕ → Bool} {held : Multiset StoreObject} (i : ℕ)

theorem leaves_encodeRef (h : held ≠ 0) :
    Leaves held (engine.encodeRef faults dtypes allocated i)
      fun obj => if obj = .chunk i then held else obj ::ₘ held := by
  rw [encodeRef]
  split
  · exact leaves_pure (if_pos rfl).symm
  · split
    · exact leaves_pure (if_pos rfl).symm
    · split
      · exact leaves_raise h
      · split
        · refine (leaves_take _ _).bind fun _ _ => ?_
          split
          · exact leaves_raise cons_ne_zero
          · exact leaves_pure (if_neg (fun heq => nomatch heq)).symm
        · exact leaves_raise h

theorem leaves_encodeBaseVariantRef (h : held ≠ 0) :
    Leaves held (engine.encodeBaseVariantRef faults dtypes allocated i)
      fun obj => obj ::ₘ held := by
  refine (leaves_encodeRef i h).bind fun obj _ => ?_
  rcases eq_or_ne obj (.chunk i) with rfl | hne
  · rw [if_pos rfl, if_pos rfl]
    exact (leaves_take _ _).bind fun _ _ => leaves_pure rfl
  · rw [if_neg hne, if_neg hne]
    exact leaves_pure rfl

theorem leaves_encodeMemoryObjRef (level : Option FidelityLevel) (i : ℕ) :
    Leaves (StoreObject.chunk i ::ₘ held)
      (engine.encodeMemoryObjRef faults dtypes allocated level i) fun obj => obj ::ₘ held := by
  rw [encodeMemoryObjRef]
  split
  · exact leaves_pure rfl
  · refine (leaves_encodeRef i cons_ne_zero).bind fun obj _ => ?_
    rcases eq_or_ne obj (.chunk i) with rfl | hne
    · rw [if_pos rfl, if_neg (not_not.mpr rfl)]
      exact leaves_pure rfl
    · rw [if_neg hne, if_pos hne, cons_swap]
      exact (leaves_drop_singleton _ _).bind fun _ _ => leaves_pure rfl

def baseObject (engine : StoreEngine F E) (faults : StoreFaults F Λ) (i : ℕ) : StoreObject :=
  match engine.baseCodec with
  | .fake => .chunk i
  | .int8 => if faults.isEncoded i then .chunk i else .encoded i

def encodeReturns (engine : StoreEngine F E) (faults : StoreFaults F Λ)
    (dtypes : List Utils.TorchDtype) (allocated : ℕ → Bool) (i : ℕ) : Bool :=
  match engine.baseCodec with
  | .fake => true
  | .int8 => faults.isEncoded i ||
      dtypes.all Utils.TorchDtype.isFloatingPoint && !faults.encode.before i && allocated i &&
        !faults.encode.after i

theorem result_encodeRef : (engine.encodeRef faults dtypes allocated i).result =
    if engine.encodeReturns faults dtypes allocated i then some (engine.baseObject faults i)
    else none := by
  rw [encodeRef, encodeReturns, baseObject]
  cases engine.baseCodec with
  | fake => rfl
  | int8 =>
    cases faults.isEncoded i with
    | true => rfl
    | false =>
      have hfloating : dtypes.any (fun dtype => !dtype.isFloatingPoint) =
          !dtypes.all Utils.TorchDtype.isFloatingPoint := by
        rw [List.all_eq_not_any_not, Bool.not_not]
      simp only [hfloating]
      cases dtypes.all Utils.TorchDtype.isFloatingPoint with
      | false => rfl
      | true =>
        cases faults.encode.before i with
        | true => rfl
        | false =>
          cases allocated i with
          | false => rfl
          | true =>
            cases faults.encode.after i with
            | true => simp
            | false => simp

theorem result_encodeBaseVariantRef :
    (engine.encodeBaseVariantRef faults dtypes allocated i).result =
      if engine.encodeReturns faults dtypes allocated i then some (engine.baseObject faults i)
      else none := by
  rw [encodeBaseVariantRef, result_bind, result_encodeRef]
  cases engine.encodeReturns faults dtypes allocated i with
  | false => rfl
  | true =>
    rw [if_pos rfl, Option.bind_some]
    split
    · rfl
    · rfl

theorem result_encodeMemoryObjRef (level : Option FidelityLevel) (i : ℕ) :
    (engine.encodeMemoryObjRef faults dtypes allocated level i).result =
      if decide (level ≠ some .base) || engine.encodeReturns faults dtypes allocated i then
        some (if level = some .base then engine.baseObject faults i else .chunk i)
      else none := by
  rw [encodeMemoryObjRef]
  rcases eq_or_ne level (some .base) with rfl | hlevel
  · rw [if_neg (not_not.mpr rfl), if_pos rfl, decide_eq_false (not_not.mpr rfl), Bool.false_or,
      result_bind, result_encodeRef]
    cases engine.encodeReturns faults dtypes allocated i with
    | false => rfl
    | true =>
      rw [if_pos rfl, Option.bind_some]
      split
      · rfl
      · rfl
  · rw [if_pos hlevel, if_neg hlevel, decide_eq_true hlevel]
    rfl

end Parts

section Puts

variable {py : StoreBuiltins F D} {engine : StoreEngine F E} {request : CacheRequest}
  {mask : Option (List Bool)} {configs : Option (RequestConfigs F)} {allocations : Allocations}
  {faults : StoreFaults F Λ} {level : Option FidelityLevel} {held : Multiset StoreObject}
  {memoryObjs : List StoreObject}

theorem leaves_putRefs (put : ℕ) (keys : List (EngineKey F)) (location : Option (List Char))
    (h : (memoryObjs : Multiset StoreObject) + held ≠ 0) :
    Leaves ((memoryObjs : Multiset StoreObject) + held)
      (faults.putRefs put keys memoryObjs location) fun _ => held :=
  PutFaults.leaves_batchedPutRefs _ h

theorem leaves_lastPutRefs (put : ℕ) (keys : List (EngineKey F)) (location : Option (List Char))
    (h : (memoryObjs : Multiset StoreObject) ≠ 0) :
    Leaves (memoryObjs : Multiset StoreObject) (faults.putRefs put keys memoryObjs location)
      fun _ => 0 := by
  rw [← add_zero (memoryObjs : Multiset StoreObject)] at h ⊢
  exact leaves_putRefs put keys location h

theorem isSome_putRefs (put : ℕ) (keys : List (EngineKey F)) (memoryObjs : List StoreObject)
    (location : Option (List Char)) :
    (faults.putRefs put keys memoryObjs location).result.isSome =
      !faults.putRaises put keys memoryObjs location :=
  PutFaults.isSome_batchedPutRefs _

theorem coe_ne_zero {n : ℕ} {objs : List StoreObject} (hlen : objs.length = n) (h : n ≠ 0) :
    (objs : Multiset StoreObject) ≠ 0 := by
  intro hzero
  rw [coe_eq_zero] at hzero
  rw [hzero] at hlen
  exact h hlen.symm

variable (targets : Option (List Char) × Option (List Char)) {chunks : List ℕ}

theorem leaves_dualPutsRefs (keys fullKeys : List (EngineKey F)) (h : chunks.length ≠ 0) :
    Leaves (chunkObjects chunks : Multiset StoreObject)
      (engine.dualPutsRefs allocations faults targets keys fullKeys chunks) fun _ => 0 := by
  have hchunks : (chunkObjects chunks : Multiset StoreObject) ≠ 0 :=
    coe_ne_zero (List.length_map _) h
  have hstep : ∀ i ∈ chunks, ∀ rest, (chunkObjects chunks : Multiset StoreObject) ≤ rest →
      Leaves (([] : List StoreObject) + rest : Multiset StoreObject)
        (engine.encodeBaseVariantRef faults engine.getDtypes (allocations.encoded 0) i)
        fun obj => obj ::ₘ rest := by
    intro i _ rest hrest
    rw [coe_nil, zero_add]
    exact leaves_encodeBaseVariantRef i (ne_zero_of_le hchunks hrest)
  have hencode := leaves_each hstep (le_refl _)
  have hnone : chunks.flatMap (fun _ => ([] : List StoreObject)) = [] :=
    List.flatMap_eq_nil_iff.mpr fun _ _ => rfl
  rw [hnone, coe_nil, zero_add] at hencode
  refine hencode.bind fun objs heach => ?_
  rw [add_comm]
  refine (leaves_putRefs 0 fullKeys targets.2
    (ne_zero_of_le hchunks (le_add_right _ _))).bind fun _ _ => ?_
  exact leaves_lastPutRefs 1 keys targets.1 (coe_ne_zero (length_of_each heach) h)

theorem leaves_singlePutsRefs (level : Option FidelityLevel) (keys : List (EngineKey F))
    (h : chunks.length ≠ 0) :
    Leaves (chunkObjects chunks : Multiset StoreObject)
      (engine.singlePutsRefs allocations faults level keys chunks) fun _ => 0 := by
  have hstep : ∀ i ∈ chunks, ∀ rest, (0 : Multiset StoreObject) ≤ rest →
      Leaves (([.chunk i] : List StoreObject) + rest : Multiset StoreObject)
        (engine.encodeMemoryObjRef faults engine.getDtypes (allocations.encoded 0) level i)
        fun obj => obj ::ₘ rest := by
    intro i _ rest _
    rw [coe_singleton, singleton_add]
    exact leaves_encodeMemoryObjRef level i
  have hencode := leaves_each hstep (le_refl 0)
  rw [← List.map_eq_flatMap, ← chunkObjects, add_zero] at hencode
  refine hencode.bind fun objs heach => ?_
  rw [add_zero]
  exact leaves_lastPutRefs 0 keys engine.storeLocation (coe_ne_zero (length_of_each heach) h)

theorem leaves_storePutsRefs {keys : List (EngineKey F)} (h : keys.length ≠ 0) :
    Leaves (chunkObjects (List.range keys.length) : Multiset StoreObject)
      (engine.storePutsRefs py request mask configs allocations faults level keys)
      fun _ => 0 := by
  have hrange : (List.range keys.length).length ≠ 0 := List.length_range.trans_ne h
  have hchunks : (chunkObjects (List.range keys.length) : Multiset StoreObject) ≠ 0 :=
    coe_ne_zero (List.length_map _) hrange
  rw [storePutsRefs]
  split
  · refine (leaves_ofExcept _ hchunks).bind fun targets _ => ?_
    refine (leaves_ofExcept _ hchunks).bind fun fullKeys _ => ?_
    split
    · exact leaves_raise hchunks
    · exact leaves_dualPutsRefs targets keys fullKeys hrange
  · exact leaves_singlePutsRefs level keys hrange

variable (engine allocations faults) in
def chunksEncode (chunks : List ℕ) : Bool :=
  chunks.all (engine.encodeReturns faults engine.getDtypes (allocations.encoded 0))

variable (py engine request mask configs allocations faults) in
def storePutsReturn (level : Option FidelityLevel) (keys : List (EngineKey F)) : Bool :=
  let chunks := List.range keys.length
  let baseObjects := chunks.map (engine.baseObject faults)
  if engine.shouldDualStoreBase level then
    match engine.dualStoreTargets py, engine.buildVariantKeys request mask configs .full with
    | .ok targets, .ok fullKeys =>
        fullKeys.length == keys.length && (engine.chunksEncode allocations faults chunks &&
          !faults.putRaises 0 fullKeys (chunkObjects chunks) targets.2 &&
          !faults.putRaises 1 keys baseObjects targets.1)
    | _, _ => false
  else if level = some .base then
    engine.chunksEncode allocations faults chunks &&
      !faults.putRaises 0 keys baseObjects engine.storeLocation
  else !faults.putRaises 0 keys (chunkObjects chunks) engine.storeLocation

theorem isSome_dualPutsRefs (keys fullKeys : List (EngineKey F)) (chunks : List ℕ) :
    (engine.dualPutsRefs allocations faults targets keys fullKeys chunks).result.isSome =
      (engine.chunksEncode allocations faults chunks &&
        !faults.putRaises 0 fullKeys (chunkObjects chunks) targets.2 &&
        !faults.putRaises 1 keys (chunks.map (engine.baseObject faults)) targets.1) := by
  rw [dualPutsRefs, result_bind, result_each fun i _ => result_encodeBaseVariantRef i, chunksEncode]
  cases chunks.all (engine.encodeReturns faults engine.getDtypes (allocations.encoded 0)) with
  | false => rfl
  | true =>
    rw [if_pos rfl, Option.bind_some, result_bind, ← isSome_putRefs, ← isSome_putRefs]
    cases (faults.putRefs 0 fullKeys (chunkObjects chunks) targets.2).result with
    | none => rfl
    | some _ => rfl

theorem isSome_singlePutsRefs (level : Option FidelityLevel) (keys : List (EngineKey F))
    (chunks : List ℕ) :
    (engine.singlePutsRefs allocations faults level keys chunks).result.isSome =
      if level = some .base then engine.chunksEncode allocations faults chunks &&
        !faults.putRaises 0 keys (chunks.map (engine.baseObject faults)) engine.storeLocation
      else !faults.putRaises 0 keys (chunkObjects chunks) engine.storeLocation := by
  rw [singlePutsRefs, result_bind, result_each fun i _ => result_encodeMemoryObjRef level i,
    chunksEncode]
  rcases eq_or_ne level (some .base) with rfl | hlevel
  · simp only [ne_eq, not_true_eq_false, decide_false, Bool.false_or, if_true, ← isSome_putRefs]
    cases chunks.all (engine.encodeReturns faults engine.getDtypes (allocations.encoded 0)) with
    | false => rfl
    | true => rfl
  · simp only [hlevel, ne_eq, not_false_eq_true, decide_true, Bool.true_or, if_false,
      ← isSome_putRefs, List.all_eq_true, implies_true, if_true, Option.bind_some]
    rfl

theorem isSome_storePutsRefs (level : Option FidelityLevel) (keys : List (EngineKey F)) :
    (engine.storePutsRefs py request mask configs allocations faults level keys).result.isSome =
      engine.storePutsReturn py request mask configs allocations faults level keys := by
  rw [storePutsRefs, storePutsReturn]
  cases engine.shouldDualStoreBase level with
  | false =>
    simp only [Bool.false_eq_true, if_false]
    exact isSome_singlePutsRefs level keys _
  | true =>
    simp only [if_true]
    cases engine.dualStoreTargets py with
    | error error => rfl
    | ok targets =>
      cases engine.buildVariantKeys request mask configs .full with
      | error error => rfl
      | ok fullKeys =>
        simp only [ok_bind]
        rcases eq_or_ne fullKeys.length keys.length with hlen | hlen
        · rw [if_neg (not_not.mpr hlen), beq_iff_eq.mpr hlen, Bool.true_and]
          exact isSome_dualPutsRefs _ _ _ _
        · rw [if_pos hlen, beq_eq_false_iff_ne.mpr hlen]
          rfl

end Puts

end StoreEngine

end LMCache.Fidelity
