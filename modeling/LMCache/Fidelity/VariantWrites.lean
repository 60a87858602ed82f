import LMCache.Fidelity.DualStore
import LMCache.Fidelity.Selections

namespace LMCache.Fidelity.StoreEngine

open Numeral Text List FidelityEngine Nat Bool

section Allocated

variable {K : Type}

def chunksAllocated (allocated : ℕ → Bool) : ℕ → ℕ → ℕ
  | _, 0 => 0
  | i, n + 1 => if allocated i then chunksAllocated allocated (i + 1) n + 1 else 0

theorem chunksAllocated_le (allocated : ℕ → Bool) (i n : ℕ) :
    chunksAllocated allocated i n ≤ n := by
  induction n generalizing i with
  | zero => exact le_refl 0
  | succ n ih =>
    rw [chunksAllocated]
    split
    · exact succ_le_succ (ih (i + 1))
    · exact zero_le _

theorem allocateChunks_eq (allocated : ℕ → Bool) (i : ℕ) (segments : List (ℕ × ℕ × K)) :
    allocateChunks allocated i segments =
      segments.take (chunksAllocated allocated i segments.length) := by
  induction segments generalizing i with
  | nil => rfl
  | cons segment segments ih =>
    rw [allocateChunks, length_cons, chunksAllocated, ih]
    split
    · rfl
    · rfl

end Allocated

section Encoding

variable {F E D K : Type} (py : StoreBuiltins F D) (engine : StoreEngine F E)

def encoded (memoryObj : D) : D :=
  match engine.baseCodec with
  | .fake => memoryObj
  | .int8 => py.quantize memoryObj

def encodes (dtypes : List Utils.TorchDtype) (allocated : Bool) : Bool :=
  match engine.baseCodec with
  | .fake => true
  | .int8 => dtypes.all Utils.TorchDtype.isFloatingPoint && allocated

variable {py engine}

variable {dtypes : List Utils.TorchDtype}

theorem encode_ok {allocated : Bool} (h : engine.encodes dtypes allocated = true) (memoryObj : D) :
    engine.encode py dtypes allocated memoryObj = .ok (engine.encoded py memoryObj) := by
  rw [encode, encoded]
  rw [encodes] at h
  cases hcodec : engine.baseCodec with
  | fake => rfl
  | int8 =>
    rw [hcodec, and_eq_true, all_eq_true] at h
    have hfind : (dtypes.find? fun dtype => !dtype.isFloatingPoint) = none := by
      rw [find?_eq_none]
      intro dtype hdtype
      simp [h.1 dtype hdtype]
    simp only [hfind, h.2, if_true]

theorem encode_error (py : StoreBuiltins F D) {allocated : Bool}
    (h : engine.encodes dtypes allocated = false) (memoryObj : D) :
    ∃ error, engine.encode py dtypes allocated memoryObj = .error error := by
  rw [encode]
  rw [encodes] at h
  cases hcodec : engine.baseCodec with
  | fake =>
    rw [hcodec] at h
    cases h
  | int8 =>
    rw [hcodec] at h
    dsimp only at h ⊢
    split
    · exact ⟨_, rfl⟩
    · next hfind =>
      rw [find?_eq_none] at hfind
      have hall : dtypes.all Utils.TorchDtype.isFloatingPoint = true := by
        rw [all_eq_true]
        intro dtype hdtype
        simpa using hfind dtype hdtype
      rw [hall, Bool.true_and] at h
      rw [h]
      exact ⟨_, rfl⟩

variable {allocated : ℕ → Bool} {memoryObjs : List D}

theorem encodeAll_ok {i : ℕ}
    (h : ∀ j < memoryObjs.length, engine.encodes dtypes (allocated (i + j)) = true) :
    engine.encodeAll py dtypes allocated i memoryObjs =
      .ok (memoryObjs.map (engine.encoded py)) := by
  induction memoryObjs generalizing i with
  | nil => rfl
  | cons memoryObj memoryObjs ih =>
    have hrest : ∀ j < memoryObjs.length, engine.encodes dtypes (allocated (i + 1 + j)) = true := by
      intro j hj
      rw [add_right_comm]
      exact h (j + 1) (succ_lt_succ hj)
    have hfirst : engine.encodes dtypes (allocated i) = true := h 0 (succ_pos _)
    rw [encodeAll, encode_ok hfirst, ih hrest]
    rfl

theorem encodeAll_error (py : StoreBuiltins F D) {i j : ℕ} (hj : j < memoryObjs.length)
    (h : engine.encodes dtypes (allocated (i + j)) = false) :
    ∃ error, engine.encodeAll py dtypes allocated i memoryObjs = .error error := by
  induction memoryObjs generalizing i j with
  | nil => exact absurd hj (not_lt_zero j)
  | cons memoryObj memoryObjs ih =>
    rw [encodeAll]
    cases hfirst : engine.encode py dtypes (allocated i) memoryObj with
    | error error => exact ⟨error, rfl⟩
    | ok encoded =>
      cases j with
      | zero =>
        obtain ⟨error, herror⟩ := encode_error py h memoryObj
        rw [add_zero, hfirst] at herror
        cases herror
      | succ j =>
        obtain ⟨error, herror⟩ := ih (i := i + 1) (j := j) (lt_of_succ_lt_succ hj)
          (by rw [add_right_comm]; exact h)
        rw [herror]
        exact ⟨error, rfl⟩

theorem encodeAll_ok_iff (py : StoreBuiltins F D) :
    (∃ encoded, engine.encodeAll py dtypes allocated 0 memoryObjs = .ok encoded) ↔
      ∀ i < memoryObjs.length, engine.encodes dtypes (allocated i) = true := by
  constructor
  · rintro ⟨encoded, hencoded⟩ i hi
    by_contra hfails
    have hfails' : engine.encodes dtypes (allocated (0 + i)) = false := by
      rw [zero_add]
      exact eq_false_of_ne_true hfails
    obtain ⟨error, herror⟩ := encodeAll_error py hi hfails'
    cases herror.symm.trans hencoded
  · intro h
    refine ⟨_, encodeAll_ok fun i hi => ?_⟩
    rw [zero_add]
    exact h i hi

theorem singlePuts_ok (py : StoreBuiltins F D) {level : Option FidelityLevel}
    (h : level = some .base →
      ∀ i < memoryObjs.length, engine.encodes dtypes (allocated i) = true) (keys : List K) :
    ∃ objs, engine.singlePuts py dtypes allocated level keys memoryObjs =
      .ok [.put engine.storeLocation keys objs] := by
  rw [singlePuts]
  split_ifs with hlevel
  · obtain ⟨encoded, hencoded⟩ := (encodeAll_ok_iff py).mpr (h hlevel)
    rw [hencoded]
    exact ⟨encoded, rfl⟩
  · exact ⟨memoryObjs, rfl⟩

theorem singlePuts_error (py : StoreBuiltins F D) {i : ℕ} (hi : i < memoryObjs.length)
    (h : engine.encodes dtypes (allocated i) = false) (keys : List K) :
    ∃ error, engine.singlePuts py dtypes allocated (some .base) keys memoryObjs = .error error := by
  obtain ⟨error, herror⟩ := encodeAll_error py (i := 0) hi (by rw [zero_add]; exact h)
  rw [singlePuts, if_pos rfl, herror]
  exact ⟨error, rfl⟩

end Encoding

section Submitted

variable {F E D K : Type} {py : StoreBuiltins F D} {engine : StoreEngine F E}
  {dtypes : List Utils.TorchDtype} {allocated : ℕ → Bool}

theorem dualPuts_ok {memoryObjs : List D}
    (h : ∀ i < memoryObjs.length, engine.encodes dtypes (allocated i) = true)
    (baseLocation fullLocation : Option (List Char)) (keys fullKeys : List K) :
    engine.dualPuts py dtypes allocated baseLocation fullLocation keys fullKeys memoryObjs =
      .ok [.put fullLocation fullKeys memoryObjs,
        .put baseLocation keys (memoryObjs.map (engine.encoded py))] := by
  rw [dualPuts, encodeAll_ok]
  · rfl
  · intro i hi
    rw [zero_add]
    exact h i hi

theorem dualPuts_error (py : StoreBuiltins F D) {i : ℕ} {memoryObjs : List D}
    (hi : i < memoryObjs.length) (h : engine.encodes dtypes (allocated i) = false)
    (baseLocation fullLocation : Option (List Char)) (keys fullKeys : List K) :
    ∃ error, engine.dualPuts py dtypes allocated baseLocation fullLocation keys fullKeys
      memoryObjs = .error error := by
  obtain ⟨error, herror⟩ := encodeAll_error py (i := 0) hi (by rw [zero_add]; exact h)
  rw [dualPuts, herror]
  exact ⟨error, rfl⟩

theorem mem_submitted_of_put {run : StoreRun F K D} {location : List Char} {A : Type}
    {xs : List A} {f : A → K} {g : A → D}
    (hput : .put (some location) (xs.map f) (xs.map g) ∈ run.events) {x : A} (hx : x ∈ xs) :
    (f x, g x) ∈ run.submitted location := by
  refine mem_flatMap.mpr ⟨_, hput, ?_⟩
  rw [StoreEvent.submitted, if_pos rfl, zip_map']
  exact mem_map_of_mem hx

end Submitted

section Selected

variable {F E D K : Type} (py : StoreBuiltins F D) (engine : StoreEngine F E)

def keyed (emit : ℤ → K) (segment : ℕ × ℕ × ℤ) : ℕ × ℕ × K :=
  (segment.1, segment.2.1, emit segment.2.2)

def spans (request : CacheRequest) (mask : Option (List Bool)) : Except String (List (ℕ × ℕ × ℤ)) :=
  engine.tokenDatabase.processTokens id request.tokens? request.hashes? request.offsets? mask

structure DualStoreConfigured (request : CacheRequest) (configs : Option (RequestConfigs F))
    (fullLocation : List Char) : Prop where
  cache : engine.config.enableFidelityCache = true
  baseVariant : engine.storeBaseVariant = true
  fullVariant : engine.storeFullVariant = true
  targets : engine.dualStoreTargets py = .ok (some cpuName, some fullLocation)
  level : ∀ decision, engine.decision py.toBuiltins configs request.tokens? request.hashes?
    request.offsets? = .ok decision → decision.level = .base

variable {py engine}

variable {level : Option FidelityLevel}

theorem level_of_shouldDualStoreBase (hdual : engine.shouldDualStoreBase level = true) :
    level = some .base := by
  rw [StoreEngine.shouldDualStoreBase] at hdual
  simp only [and_eq_true, beq_iff_eq] at hdual
  exact hdual.1.1.2

theorem processTokens_eq_spans (request : CacheRequest) (mask : Option (List Bool))
    (configs : Option (RequestConfigs F)) :
    engine.processTokens configs request.tokens? request.hashes? request.offsets? mask =
      ((engine.spans request mask).mapError EngineError.tokens).map
        (map (keyed (engine.makeKeyByHash configs))) := by
  rw [processTokens, ChunkedTokenDatabase.processTokens_eq_map, spans]
  cases engine.tokenDatabase.processTokens id request.tokens? request.hashes? request.offsets?
    mask with
  | error message => rfl
  | ok segments => rfl

theorem segmentsOf_eq (request : CacheRequest) (mask : Option (List Bool))
    (configs : Option (RequestConfigs F)) :
    engine.segmentsOf request mask configs =
      ((engine.spans request mask).mapError fun message =>
        StoreError.engine (.tokens message)).map (map (keyed (engine.makeKeyByHash configs))) := by
  rw [segmentsOf, processTokens_eq_spans]
  cases engine.spans request mask with
  | error message => rfl
  | ok segments => rfl

theorem tagDict_requestConfigsForLevel (configs : RequestConfigs F) (level : FidelityLevel) :
    tagDict (Fidelity.requestConfigsForLevel (some configs) level) =
      (tagDict configs).set fidelityTag (.str level.value) := by
  rw [Fidelity.requestConfigsForLevel, Option.getD_some, tagDict_set_tag,
    tagDict_set_of_none (by decide)]

namespace DualStoreConfigured

variable {request : CacheRequest} {configs : Option (RequestConfigs F)}
  {fullLocation : List Char}

theorem shouldDualStoreBase (h : DualStoreConfigured py engine request configs fullLocation) :
    engine.shouldDualStoreBase (some .base) = true := by
  rw [StoreEngine.shouldDualStoreBase, h.cache, h.baseVariant, h.fullVariant]
  rfl

theorem normalizeConfigs (h : DualStoreConfigured py engine request configs fullLocation) :
    (∃ error, engine.normalizeConfigs py.toBuiltins configs request.tokens? request.hashes?
        request.offsets? = .error error) ∨
      ∃ normalized, engine.normalizeConfigs py.toBuiltins configs request.tokens? request.hashes?
          request.offsets? = .ok (some normalized, some .base) ∧
        engine.makeKeyByHash (some normalized) = engine.levelKey configs .base ∧
          engine.makeKeyByHash (engine.requestConfigsForLevel (some normalized) .full) =
            engine.levelKey configs .full := by
  rw [normalizeConfigs_eq h.cache]
  cases hdecision : engine.decision py.toBuiltins configs request.tokens? request.hashes?
    request.offsets? with
  | error error => exact .inl ⟨error, rfl⟩
  | ok decision =>
    have hlevel := h.level decision hdecision
    refine .inr ⟨recordDecision (engine.applied py.toBuiltins configs request.tokens?
      request.hashes? request.offsets?) decision, ?_, ?_, ?_⟩
    · rw [Except.map, hlevel]
    · rw [makeKeyByHash_eq configs .base]
      rw [tagDict_recordDecision, tagDict_applied, hlevel]
    · rw [StoreEngine.requestConfigsForLevel, if_pos h.cache, makeKeyByHash_eq configs .full]
      rw [tagDict_requestConfigsForLevel, tagDict_recordDecision, tagDict_applied]
      exact Dict.eq_of_items (Dict.assign_assign _ _ _ _)

end DualStoreConfigured

theorem storeSelection_error_of_configs {request : CacheRequest} {mask : Option (List Bool)}
    {configs : Option (RequestConfigs F)} {error : FidelityError F}
    (h : engine.normalizeConfigs py.toBuiltins configs request.tokens? request.hashes?
      request.offsets? = .error error) :
    engine.storeSelection py.toBuiltins request configs mask = .error (.fidelity error) := by
  rw [storeSelection, h]
  rfl

theorem storeSelection_eq_spans {request : CacheRequest}
    {configs normalized : Option (RequestConfigs F)}
    (h : engine.normalizeConfigs py.toBuiltins configs request.tokens? request.hashes?
      request.offsets? = .ok (normalized, level)) (mask : Option (List Bool)) :
    engine.storeSelection py.toBuiltins request configs mask =
      ((engine.spans request mask).mapError EngineError.tokens).map fun segments =>
        (level, segments.map (keyed (engine.makeKeyByHash normalized))) := by
  rw [storeSelection, h]
  simp only [Except.mapError, bind, Except.bind, processTokens_eq_spans]
  cases engine.spans request mask with
  | error message => rfl
  | ok segments => rfl

end Selected

section Written

variable {F E D K I : Type} (py : StoreBuiltins F D) (engine : StoreEngine F E)

structure DualWritten (configs : Option (RequestConfigs F)) (fullLocation : List Char)
    (parts : List I) (keyOf : I → EngineKey F → K) (kv : I → ℕ × ℕ → D) (run : StoreRun F K D) :
    Prop where
  noMismatch : ∀ error ∈ run.error, error.isKeyMismatch = false
  base : ∀ segment ∈ run.allocated, ∀ part ∈ parts,
    (keyOf part (engine.levelKey configs .base segment.2.2.chunkHash),
      engine.encoded py (kv part (segment.1, segment.2.1))) ∈ run.submitted cpuName
  full : ∀ segment ∈ run.allocated, ∀ part ∈ parts,
    (keyOf part (engine.levelKey configs .full segment.2.2.chunkHash),
      kv part (segment.1, segment.2.1)) ∈ run.submitted fullLocation

def StoreFits (chunks : ℕ) (allocations : Allocations) : Prop :=
  let stored := chunksAllocated allocations.chunk 0 chunks
  stored = 0 ∨ stored = chunks ∧
    ∀ i < stored, engine.encodes engine.getDtypes (allocations.encoded 0 i) = true

def LayersFit (chunks : ℕ) (allocations : Allocations) : Prop :=
  let stored := chunksAllocated allocations.chunk 0 chunks
  engine.numLayers = 0 ∨ stored = 0 ∨ stored = engine.numLayers ∧
    ∀ layerId < engine.numLayers, ∀ i < stored,
      engine.encodes [engine.metadata.kvDtype] (allocations.encoded layerId i) = true

variable {py engine} {configs : Option (RequestConfigs F)} {fullLocation : List Char}
  {parts : List I} {keyOf : I → EngineKey F → K} {kv : I → ℕ × ℕ → D} {run : StoreRun F K D}

theorem DualWritten.of_nil (hallocated : run.allocated = [])
    (herror : ∀ error ∈ run.error, error.isKeyMismatch = false) :
    DualWritten py engine configs fullLocation parts keyOf kv run := by
  refine ⟨herror, ?_, ?_⟩
  · rw [hallocated]
    exact fun _ hmem => nomatch hmem
  · rw [hallocated]
    exact fun _ hmem => nomatch hmem

theorem DualWritten.of_puts {segments : List (ℕ × ℕ × ℤ)} (herror : run.error = none)
    (hallocated : run.allocated = segments.map (keyed (engine.levelKey configs .base)))
    (hbase : ∀ part ∈ parts, .put (some cpuName)
      (segments.map fun segment => keyOf part (engine.levelKey configs .base segment.2.2))
      (segments.map fun segment => engine.encoded py (kv part (segment.1, segment.2.1))) ∈
        run.events)
    (hfull : ∀ part ∈ parts, .put (some fullLocation)
      (segments.map fun segment => keyOf part (engine.levelKey configs .full segment.2.2))
      (segments.map fun segment => kv part (segment.1, segment.2.1)) ∈ run.events) :
    DualWritten py engine configs fullLocation parts keyOf kv run := by
  refine ⟨?_, ?_, ?_⟩
  · rw [herror]
    exact fun _ hmem => nomatch hmem
  · rw [hallocated]
    intro stored hstored part hpart
    obtain ⟨segment, hsegment, rfl⟩ := mem_map.mp hstored
    exact mem_submitted_of_put (hbase part hpart) hsegment
  · rw [hallocated]
    intro stored hstored part hpart
    obtain ⟨segment, hsegment, rfl⟩ := mem_map.mp hstored
    exact mem_submitted_of_put (hfull part hpart) hsegment

theorem DualWritten.submitted_nonempty
    (h : DualWritten py engine configs fullLocation parts keyOf kv run)
    (hallocated : run.allocated ≠ []) {part : I} (hpart : part ∈ parts) :
    ∃ chunkHash memoryObj, (keyOf part (engine.levelKey configs .base chunkHash), memoryObj) ∈
      run.submitted cpuName := by
  obtain ⟨segment, hsegment⟩ := exists_mem_of_ne_nil _ hallocated
  exact ⟨_, _, h.base segment hsegment part hpart⟩

end Written

section Store

variable {F E D : Type} {py : StoreBuiltins F D} {engine : StoreEngine F E}
  {request : CacheRequest} {configs : Option (RequestConfigs F)} {fullLocation : List Char}
  {segments : List (ℕ × ℕ × ℤ)} {normalized : RequestConfigs F} {mask : Option (List Bool)}

theorem storePuts_eq (h : DualStoreConfigured py engine request configs fullLocation)
    (hspans : engine.spans request mask = .ok segments)
    (hfull : engine.makeKeyByHash (engine.requestConfigsForLevel (some normalized) .full) =
      engine.levelKey configs .full) (stored : List (ℕ × ℕ × ℤ)) (allocations : Allocations)
    (kv : ℕ × ℕ → D) :
    engine.storePuts py request mask (some normalized) (some .base)
        (stored.map (keyed (engine.levelKey configs .base))) allocations kv =
      if segments.length ≠ stored.length then
        .error (.keyMismatch stored.length segments.length)
      else
        engine.dualPuts py engine.getDtypes (allocations.encoded 0) (some cpuName)
          (some fullLocation) (stored.map fun segment => engine.levelKey configs .base segment.2.2)
          (segments.map fun segment => engine.levelKey configs .full segment.2.2)
          (stored.map fun segment => kv (segment.1, segment.2.1)) := by
  simp only [storePuts, h.shouldDualStoreBase, if_true, h.targets, bind, Except.bind,
    buildVariantKeys, segmentsOf_eq, hspans, hfull, Except.mapError, Except.map, map_map,
    length_map]
  split
  · rfl
  · rfl

theorem cleanupBaseVariant_base (request : CacheRequest) (mask : Option (List Bool))
    (configs : Option (RequestConfigs F)) :
    engine.cleanupBaseVariant py request mask configs (some .base) = .ok [] := by
  have hcleanup : engine.shouldCleanupBaseOnFullStore (some .base) = false := by
    rw [shouldCleanupBaseOnFullStore, Bool.and_right_comm]
    exact and_false _
  rw [cleanupBaseVariant, hcleanup]
  rfl

def dualRun (py : StoreBuiltins F D) (engine : StoreEngine F E)
    (configs : Option (RequestConfigs F)) (fullLocation : List Char)
    (segments stored : List (ℕ × ℕ × ℤ)) (allocations : Allocations) (kv : ℕ × ℕ → D) :
    StoreRun F (EngineKey F) D :=
  let allocated := stored.map (keyed (engine.levelKey configs .base))
  if stored.isEmpty then ⟨[], [], none⟩
  else if segments.length ≠ stored.length then
    ⟨allocated, [], some (.keyMismatch stored.length segments.length)⟩
  else
    match engine.dualPuts py engine.getDtypes (allocations.encoded 0) (some cpuName)
      (some fullLocation) (stored.map fun segment => engine.levelKey configs .base segment.2.2)
      (segments.map fun segment => engine.levelKey configs .full segment.2.2)
      (stored.map fun segment => kv (segment.1, segment.2.1)) with
    | .error error => ⟨allocated, [], some error⟩
    | .ok puts => ⟨allocated, puts, none⟩

theorem store_eq (h : DualStoreConfigured py engine request configs fullLocation)
    (hserving : (!engine.healthy || engine.passive || engine.frozen) = false)
    (hspans : engine.spans request mask = .ok segments)
    (hconfigs : engine.normalizeConfigs py.toBuiltins configs request.tokens? request.hashes?
      request.offsets? = .ok (some normalized, some .base))
    (hbase : engine.makeKeyByHash (some normalized) = engine.levelKey configs .base)
    (hfull : engine.makeKeyByHash (engine.requestConfigsForLevel (some normalized) .full) =
      engine.levelKey configs .full) (allocations : Allocations) (kv : ℕ × ℕ → D) :
    engine.store py request mask configs allocations kv =
      dualRun py engine configs fullLocation segments
        (segments.take (chunksAllocated allocations.chunk 0 segments.length)) allocations kv := by
  generalize hstored : segments.take (chunksAllocated allocations.chunk 0 segments.length) = stored
  have hkeyed : allocateChunks allocations.chunk 0
      (segments.map (keyed (engine.levelKey configs .base))) =
        stored.map (keyed (engine.levelKey configs .base)) := by
    rw [allocateChunks_eq, length_map, ← map_take, hstored]
  rw [store, hserving, hconfigs, dualRun]
  simp only [false_eq_true, if_false, segmentsOf_eq, hspans, Except.mapError, Except.map,
    hbase, hkeyed, isEmpty_map, storePuts_eq h hspans hfull, cleanupBaseVariant_base]
  generalize engine.dualPuts py engine.getDtypes (allocations.encoded 0) (some cpuName)
    (some fullLocation) (stored.map fun segment => engine.levelKey configs .base segment.2.2)
    (segments.map fun segment => engine.levelKey configs .full segment.2.2)
    (stored.map fun segment => kv (segment.1, segment.2.1)) = puts
  split
  · rfl
  · rcases eq_or_ne segments.length stored.length with hlen | hlen
    · cases puts with
      | error error => simp only [if_neg (not_not.mpr hlen)]
      | ok puts => simp only [if_neg (not_not.mpr hlen), append_nil]
    · simp only [if_pos hlen]

theorem dualWritten_dualRun_iff {segments stored : List (ℕ × ℕ × ℤ)} {allocations : Allocations}
    (hstored : segments.take (chunksAllocated allocations.chunk 0 segments.length) = stored)
    (kv : ℕ × ℕ → D) :
    DualWritten py engine configs fullLocation [()] (fun _ key => key) (fun _ => kv)
        (dualRun py engine configs fullLocation segments stored allocations kv) ↔
      engine.StoreFits segments.length allocations := by
  have hlen : stored.length = chunksAllocated allocations.chunk 0 segments.length := by
    rw [← hstored, length_take]
    exact min_eq_left (chunksAllocated_le _ _ _)
  rw [StoreFits, ← hlen, dualRun]
  cases hempty : stored.isEmpty with
  | true =>
    refine iff_of_true (.of_nil rfl fun _ hmem => nomatch hmem) (.inl ?_)
    rw [isEmpty_iff.mp hempty]
    rfl
  | false =>
    have hne : stored ≠ [] := isEmpty_eq_false_iff.mp hempty
    have hallocated : stored.map (keyed (engine.levelKey configs .base)) ≠ [] :=
      fun heq => hne (map_eq_nil_iff.mp heq)
    have hpos : stored.length ≠ 0 := fun heq => hne (length_eq_zero_iff.mp heq)
    simp only [false_eq_true, if_false]
    rw [or_iff_right hpos]
    rcases eq_or_ne segments.length stored.length with heq | hlt
    · have hall : segments = stored := by
        rw [← hstored, ← hlen, ← heq, take_length]
      subst hall
      rw [if_neg (not_not.mpr rfl), and_iff_right rfl]
      have hobjs : (segments.map fun segment => kv (segment.1, segment.2.1)).length =
          segments.length := length_map _
      constructor
      · intro h i hi
        by_contra hencodes
        obtain ⟨error, herror⟩ := dualPuts_error py (hobjs.symm ▸ hi) (eq_false_of_ne_true hencodes)
          (some cpuName) (some fullLocation)
          (segments.map fun segment => engine.levelKey configs .base segment.2.2)
          (segments.map fun segment => engine.levelKey configs .full segment.2.2)
        rw [herror] at h
        obtain ⟨_, _, hmem⟩ := h.submitted_nonempty hallocated mem_cons_self
        cases hmem
      · intro hfits
        rw [dualPuts_ok (hobjs.symm ▸ hfits)]
        refine .of_puts rfl rfl (fun part _ => ?_) fun part _ => ?_
        · rw [map_map]
          exact mem_cons_of_mem _ mem_cons_self
        · exact mem_cons_self
    · rw [if_pos hlt]
      refine iff_of_false (fun h => ?_) fun hfits => hlt hfits.1.symm
      have hmismatch := h.noMismatch _ rfl
      cases hmismatch

theorem dualWritten_store_iff (h : DualStoreConfigured py engine request configs fullLocation)
    (mask : Option (List Bool)) (allocations : Allocations) (kv : ℕ × ℕ → D) :
    DualWritten py engine configs fullLocation [()] (fun _ key => key) (fun _ => kv)
        (engine.store py request mask configs allocations kv) ↔
      (engine.healthy = true → engine.passive = false → engine.frozen = false →
        ∀ level segments, engine.storeSelection py.toBuiltins request configs mask =
          .ok (level, segments) → engine.StoreFits segments.length allocations) := by
  cases hserving : !engine.healthy || engine.passive || engine.frozen with
  | true =>
    rw [store, hserving]
    refine iff_of_true (.of_nil rfl fun _ hmem => nomatch hmem) ?_
    intro hhealthy hpassive hfrozen
    rw [hhealthy, hpassive, hfrozen] at hserving
    cases hserving
  | false =>
    rcases h.normalizeConfigs with ⟨error, herror⟩ | ⟨normalized, hconfigs, hbase, hfull⟩
    · rw [store, hserving, herror, storeSelection_error_of_configs herror]
      refine iff_of_true (.of_nil rfl ?_) fun _ _ _ _ _ hselection => nomatch hselection
      intro error' hmem
      rw [← Option.mem_some.mp hmem]
      rfl
    · rw [storeSelection_eq_spans hconfigs]
      cases hspans : engine.spans request mask with
      | error message =>
        rw [store, hserving, hconfigs]
        simp only [segmentsOf_eq, hspans]
        refine iff_of_true (.of_nil rfl ?_) fun _ _ _ _ _ hselection => nomatch hselection
        intro error hmem
        rw [← Option.mem_some.mp hmem]
        rfl
      | ok segments =>
        rw [store_eq h hserving hspans hconfigs hbase hfull, dualWritten_dualRun_iff rfl]
        simp only [Bool.or_eq_false_iff, Bool.not_eq_eq_eq_not, Bool.not_false] at hserving
        constructor
        · intro hfits _ _ _ level segments' hselection
          obtain ⟨_, rfl⟩ := Prod.mk.inj (Except.ok.inj hselection)
          rw [length_map]
          exact hfits
        · intro hfits
          rw [← length_map (keyed (engine.levelKey configs .base))]
          refine hfits hserving.1.1 hserving.1.2 hserving.2 (some .base) _ ?_
          rw [← hbase]
          rfl

end Store

end LMCache.Fidelity.StoreEngine
