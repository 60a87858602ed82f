import LMCache.Fidelity.LayerWrites
import LMCache.Foundations.Generators

namespace LMCache.Fidelity

open Generator List

inductive GPUConnector where
  | vllmBuffer
  | vllmPagedMem
  | sglang
  | notLayerwise
  deriving DecidableEq

namespace GPUConnector

variable {E : Type}

def isLayerwise : GPUConnector → Bool
  | .notLayerwise => false
  | _ => true

def batchedFromGpu (numLayers : ℕ) : Generator Unit E Unit := do
  forEach (fun _ => yield ()) (range numLayers)
  yield ()

def batchedToGpu (connector : GPUConnector) (numLayers : ℕ) : Generator Unit E Unit :=
  match connector with
  | .vllmBuffer => do
      forEach (fun layerId => if layerId ≤ numLayers then yield () else pure ())
        (range (numLayers + 2))
      yield ()
  | .vllmPagedMem => do
      forEach (fun _ => yield ()) (range numLayers)
      yield ()
      yield ()
  | .sglang | .notLayerwise => do
      forEach (fun _ => yield ()) (range numLayers)
      yield ()

end GPUConnector

inductive LayerError (F : Type) where
  | store (error : StoreError F)
  | notLayerwise
  | transfer
  | stopIteration
  | batchedPut
  | location (first second : List Char)
  | batchedGet
  | decode
  | unboundLocal

-- what the calls of one store answer: transfer has the resumptions of the connector's generator and
-- batchedPut the puts of each layer, and false says that they raise
structure StoreCalls (F : Type) where
  present : LayerEngineKey F → Bool
  allocations : Allocations
  transfer : ℕ → Bool
  batchedPut : ℕ → Bool

-- located has the backend that has a key, and none says that a get or a decode raises
structure RetrieveCalls (F D : Type) where
  located : LayerEngineKey F → Option (List Char)
  batchedGet : List Char → ℕ → List (LayerEngineKey F) → Option (List D)
  decode : ℕ → List D → Option (List D)
  transfer : ℕ → List D → Bool

inductive LayerYield where
  | none
  | tokens (count : ℕ)
  | retMask (mask : List Bool)
  deriving DecidableEq

def resume {Y F : Type} (transfer : Generator Unit (LayerError F) Unit) (works : Bool) (i : ℕ) :
    Generator Y (LayerError F) Unit := do
  require works .transfer
  require (decide (i < transfer.yields.length)) .stopIteration

namespace StoreEngine

variable {F E D : Type} (py : StoreBuiltins F D) (engine : StoreEngine F E)

def raising {A Y : Type} (result : Except (StoreError F) A) : Generator Y (LayerError F) A :=
  ofExcept (result.mapError .store)

def normalized (configs : Option (RequestConfigs F)) (tokens : List ℕ) :
    Except (StoreError F) (Option (RequestConfigs F) × Option FidelityLevel) :=
  (engine.normalizeConfigs py.toBuiltins configs (some tokens) none none).mapError fun error =>
    .engine (.fidelity error)

variable (connector : GPUConnector) (calls : StoreCalls F)

def storedGenerator (targets : Option (Option (List Char) × Option (List Char)))
    (level : Option FidelityLevel) (kv : ℕ → ℕ × ℕ → D) (stored : LayerChunks F) :
    Generator Unit (LayerError F) Unit := do
  if stored.chunks.isEmpty then
    forEach (fun _ => yield ()) (range engine.numLayers)
  else do
    let (keys, fullKeys, memoryObjs) ← raising (engine.layerMajor targets.isSome stored kv)
    require connector.isLayerwise .notLayerwise
    let transfer := GPUConnector.batchedFromGpu engine.numLayers
    resume transfer (calls.transfer 0) 0
    forEach (fun layerId => do
      yield ()
      resume transfer (calls.transfer (layerId + 1)) (layerId + 1)
      let _ ← raising
        (engine.layerPuts py targets level calls.allocations keys fullKeys memoryObjs layerId)
      require (calls.batchedPut layerId) .batchedPut) (range engine.numLayers)
  yield ()

def allocatedGenerator (targets : Option (Option (List Char) × Option (List Char)))
    (level : Option FidelityLevel) (kv : ℕ → ℕ × ℕ → D)
    (stored : LayerChunks F × Option (StoreError F)) :
    Generator Unit (LayerError F) Unit := do
  raising (stored.2.elim (.ok ()) .error)
  engine.storedGenerator py connector calls targets level kv stored.1

def storeLayerGenerator (tokens : List ℕ) (mask : Option (List Bool))
    (configs : Option (RequestConfigs F)) (kv : ℕ → ℕ × ℕ → D) :
    Generator Unit (LayerError F) Unit :=
  if !engine.healthy then pure ()
  else if engine.frozen then forEach (fun _ => yield ()) (range engine.numLayers)
  else do
    let (configs, level) ← raising (engine.normalized py configs tokens)
    let (targets, keysBySpan) ← raising (engine.layerTargets py tokens mask configs level)
    let segments ← raising (engine.segmentsOf (.tokens tokens) mask configs)
    engine.allocatedGenerator py connector calls targets level kv
      (engine.allocateLayerChunks keysBySpan calls.present calls.allocations.chunk 0 segments)

def locateHits (located : LayerEngineKey F → Option (List Char)) :
    Option (List Char) → List (ℕ × ℕ × EngineKey F) →
      Except (LayerError F) (Option (List Char) × List (ℕ × ℕ × EngineKey F))
  | location, [] => .ok (location, [])
  | location, segment :: segments =>
      match (segment.2.2.splitLayers engine.numLayers)[0]? with
      | none => .error (.store .indexError)
      | some firstKey =>
          match located firstKey with
          | none => .ok (location, [])
          | some currentLocation =>
              if location.getD currentLocation = currentLocation then
                (locateHits located (some currentLocation) segments).map fun found =>
                  (found.1, segment :: found.2)
              else .error (.location (location.getD currentLocation) currentLocation)

def retMask (tokens : List ℕ) (hits : List (ℕ × ℕ × EngineKey F)) : List Bool :=
  (range tokens.length).map fun pos =>
    hits.any fun segment => decide (segment.1 ≤ pos ∧ pos < segment.2.1)

variable (calls : RetrieveCalls F D)

def decodeMemoryObjs (level : Option FidelityLevel) (layerId : ℕ) (memoryObjs : List D) :
    Option (List D) :=
  if level = some .base then calls.decode layerId memoryObjs else some memoryObjs

def loadLayer (consumer : Generator Unit (LayerError F) Unit) (location : List Char)
    (level : Option FidelityLevel) (keys : List (LayerEngineKey F)) (layerId : ℕ) :
    Generator LayerYield (LayerError F) Unit := do
  let memoryObjs ← ofExcept ((calls.batchedGet location layerId keys).elim
    (.error .batchedGet) .ok)
  let memoryObjs ← ofExcept ((decodeMemoryObjs calls level layerId memoryObjs).elim
    (.error .decode) .ok)
  resume consumer (calls.transfer (layerId + 1) memoryObjs) (layerId + 1)

def loadedGenerator (tokens : List ℕ) (level : Option FidelityLevel)
    (location : Option (List Char)) (hits : List (ℕ × ℕ × EngineKey F)) :
    Generator LayerYield (LayerError F) Unit := do
  let consumer := connector.batchedToGpu engine.numLayers
  if hits.isEmpty then
    forEach (fun _ => yield .none) (range engine.numLayers)
  else do
    let keysLayerMajor := Columns.zipRows (hits.map fun segment =>
      segment.2.2.splitLayers engine.numLayers)
    require connector.isLayerwise .notLayerwise
    resume consumer (calls.transfer 0 []) 0
    forEach (fun layerId => do
      let keys ← ofExcept (keysLayerMajor[layerId]?.elim (.error .stopIteration) .ok)
      yield (if layerId = 0 then .tokens ((retMask tokens hits).count true) else .none)
      loadLayer calls consumer (location.getD cpuName) level keys layerId)
      (range engine.numLayers)
  yield .none
  require (!hits.isEmpty) .unboundLocal
  resume consumer (calls.transfer (engine.numLayers + 1) []) (engine.numLayers + 1)
  yield (.retMask (retMask tokens hits))

def locatedGenerator (tokens : List ℕ) (level : Option FidelityLevel)
    (segments : List (ℕ × ℕ × EngineKey F)) :
    Generator LayerYield (LayerError F) Unit := do
  let (location, hits) ← ofExcept (engine.locateHits calls.located none segments)
  engine.loadedGenerator connector calls tokens level location hits

def retrieveLayerGenerator (tokens : List ℕ) (mask : Option (List Bool))
    (configs : Option (RequestConfigs F)) : Generator LayerYield (LayerError F) Unit :=
  if !engine.healthy then yield (.retMask (replicate tokens.length false))
  else do
    let (configs, level) ← raising (engine.normalized py configs tokens)
    let segments ← raising (engine.segmentsOf (.tokens tokens) mask configs)
    engine.locatedGenerator connector calls tokens level segments

end StoreEngine

namespace GPUConnector

variable {F : Type}

theorem length_batchedFromGpu (numLayers : ℕ) :
    (batchedFromGpu numLayers : Generator Unit (LayerError F) Unit).yields.length =
      numLayers + 1 := by
  have hyields : (batchedFromGpu numLayers : Generator Unit (LayerError F) Unit).yields =
      (range numLayers).map (fun _ => ()) ++ [()] := by
    apply yields_of_ends
    simp [batchedFromGpu]
  simp [hyields]

theorem length_batchedToGpu (connector : GPUConnector) (numLayers : ℕ) :
    (connector.batchedToGpu numLayers : Generator Unit (LayerError F) Unit).yields.length =
      if connector = .vllmBuffer ∨ connector = .vllmPagedMem then numLayers + 2
      else numLayers + 1 := by
  cases connector with
  | vllmBuffer =>
    have hyields :
        (batchedToGpu .vllmBuffer numLayers : Generator Unit (LayerError F) Unit).yields =
        ((range (numLayers + 2)).filter (· ≤ numLayers)).map (fun _ => ()) ++ [()] := by
      apply yields_of_ends
      simp [batchedToGpu, ends_forEach_yield_if]
    have hkept : (range (numLayers + 2)).filter (· ≤ numLayers) =
        range (numLayers + 1) := by
      rw [range_succ, filter_append, filter_eq_self.mpr]
      · simp
      · intro layerId hlayer
        rw [decide_eq_true_iff]
        exact Nat.le_of_lt_succ (mem_range.mp hlayer)
    simp [hyields, hkept]
  | vllmPagedMem =>
    have hyields : (batchedToGpu .vllmPagedMem numLayers :
        Generator Unit (LayerError F) Unit).yields =
          (range numLayers).map (fun _ => ()) ++ [(), ()] := by
      apply yields_of_ends
      simp [batchedToGpu]
    simp [hyields]
  | sglang =>
    have hyields : (batchedToGpu .sglang numLayers : Generator Unit (LayerError F) Unit).yields =
        (range numLayers).map (fun _ => ()) ++ [()] := by
      apply yields_of_ends
      simp [batchedToGpu]
    simp [hyields]
  | notLayerwise =>
    have hyields : (batchedToGpu .notLayerwise numLayers :
        Generator Unit (LayerError F) Unit).yields =
          (range numLayers).map (fun _ => ()) ++ [()] := by
      apply yields_of_ends
      simp [batchedToGpu]
    simp [hyields]

theorem lt_length_batchedToGpu (connector : GPUConnector) (numLayers : ℕ) :
    numLayers + 1 < (connector.batchedToGpu numLayers :
        Generator Unit (LayerError F) Unit).yields.length ↔
      connector = .vllmBuffer ∨ connector = .vllmPagedMem := by
  rw [length_batchedToGpu]
  split
  · next hvllm => exact iff_of_true (Nat.lt_succ_self _) hvllm
  · next hother => exact iff_of_false (Nat.lt_irrefl _) hother

end GPUConnector

section Rules

variable {F Y A : Type}

@[simp]
theorem ends_resume (transfer : Generator Unit (LayerError F) Unit) (works : Bool) (i : ℕ)
    {R : List Y → Unit → Prop} :
    (resume transfer works i).Ends R ↔ works = true ∧ i < transfer.yields.length ∧ R [] () := by
  simp [resume]

@[simp]
theorem ends_raising (result : Except (StoreError F) A) {R : List Y → A → Prop} :
    (StoreEngine.raising result).Ends R ↔ ∃ a, result = .ok a ∧ R [] a := by
  rw [StoreEngine.raising, ends_ofExcept]
  cases result with
  | error error => simp [Except.mapError]
  | ok a => simp [Except.mapError]

end Rules

namespace StoreEngine

section Store

variable {F E D : Type} {py : StoreBuiltins F D} {engine : StoreEngine F E}
  {connector : GPUConnector} {calls : StoreCalls F} {level : Option FidelityLevel}
  {targets : Option (Option (List Char) × Option (List Char))}

theorem layerPuts_ok_iff (py : StoreBuiltins F D)
    (hbase : targets.isSome = true → level = some .base) {layerId : ℕ}
    (hlayer : layerId < engine.numLayers) (allocations : Allocations)
    (keys fullKeys : ℕ → List (LayerEngineKey F)) (memoryObjs : ℕ → List D) :
    (∃ events, engine.layerPuts py targets level allocations ((range engine.numLayers).map keys)
        (if targets.isSome then (range engine.numLayers).map fullKeys else [])
        ((range engine.numLayers).map memoryObjs) layerId = .ok events) ↔
      (level = some .base → ∀ i < (memoryObjs layerId).length,
        engine.encodes [engine.metadata.kvDtype] (allocations.encoded layerId i) = true) := by
  have hget : ∀ {A : Type} (f : ℕ → A),
      ((range engine.numLayers).map f)[layerId]? = some (f layerId) := by
    intro A f
    rw [getElem?_map, getElem?_range hlayer]
    rfl
  cases targets with
  | none =>
    simp only [layerPuts, hget, singlePuts]
    by_cases hlevel : level = some .base
    · rw [if_pos hlevel, ← encodeAll_ok_iff py, forall_prop_of_true hlevel]
      cases engine.encodeAll py [engine.metadata.kvDtype] (allocations.encoded layerId) 0
        (memoryObjs layerId) with
      | error error => simp [bind, Except.bind]
      | ok encoded => simp [bind, Except.bind, pure, Except.pure]
    · rw [if_neg hlevel]
      exact iff_of_true ⟨_, rfl⟩ fun hlevel' => absurd hlevel' hlevel
  | some pair =>
    simp only [Option.isSome_some, if_true, layerPuts, hget, dualPuts]
    rw [← encodeAll_ok_iff py, forall_prop_of_true (hbase rfl)]
    cases engine.encodeAll py [engine.metadata.kvDtype] (allocations.encoded layerId) 0
      (memoryObjs layerId) with
    | error error => simp [bind, Except.bind]
    | ok encoded => simp [bind, Except.bind, pure, Except.pure]

structure LayersStored (engine : StoreEngine F E) (connector : GPUConnector)
    (calls : StoreCalls F) (level : Option FidelityLevel) (chunks : ℕ) : Prop where
  layerwise : connector.isLayerwise = true
  square : engine.shouldDualStoreBase level = true → chunks = engine.numLayers
  encodes : level = some .base → ∀ layerId < engine.numLayers, ∀ i < chunks,
    engine.encodes [engine.metadata.kvDtype] (calls.allocations.encoded layerId i) = true
  transfers : ∀ i ≤ engine.numLayers, calls.transfer i = true
  puts : ∀ layerId < engine.numLayers, calls.batchedPut layerId = true

theorem ends_storedGenerator (py : StoreBuiltins F D) (connector : GPUConnector)
    (calls : StoreCalls F) (hdual : targets.isSome = engine.shouldDualStoreBase level)
    (baseKey fullKey : ℤ → EngineKey F) (kv : ℕ → ℕ × ℕ → D) (stored : List (ℕ × ℕ × ℤ)) :
    ((engine.storedGenerator py connector calls targets level kv
        ⟨stored.map (keyed baseKey), if targets.isSome then
          stored.map fun segment => (fullKey segment.2.2).splitLayers engine.numLayers
          else []⟩).Ends fun yields _ => yields.length = engine.numLayers + 1) ↔
      stored.length = 0 ∨ engine.LayersStored connector calls level stored.length := by
  have hbase : targets.isSome = true → level = some .base :=
    fun hsome => level_of_shouldDualStoreBase (hdual ▸ hsome)
  rw [storedGenerator, isEmpty_map]
  by_cases hne : stored = []
  · simp [hne]
  rw [isEmpty_eq_false_iff.mpr hne, or_iff_right fun hlen => hne (length_eq_zero_iff.mp hlen),
    layerMajor_eq targets.isSome hne baseKey fullKey kv]
  simp only [Bool.false_eq_true, if_false, ends_bind, ends_raising]
  by_cases hsquare : targets.isSome = true ∧ stored.length ≠ engine.numLayers
  · rw [if_pos hsquare]
    refine iff_of_false ?_ fun h => hsquare.2 (h.square (hdual ▸ hsquare.1))
    rintro ⟨_, hmajor, _⟩
    cases hmajor
  rw [if_neg hsquare]
  simp only [Except.ok.injEq, exists_eq_left', ends_require, ends_resume,
    GPUConnector.length_batchedFromGpu]
  rw [ends_forEach (y := fun _ => ()) (P := fun layerId => calls.transfer (layerId + 1) = true ∧
    (level = some .base → ∀ i < stored.length,
      engine.encodes [engine.metadata.kvDtype] (calls.allocations.encoded layerId i) = true) ∧
    calls.batchedPut layerId = true)]
  · simp only [ends_yield, nil_append, length_append, length_map, length_range,
      length_singleton, and_true, mem_range]
    constructor
    · rintro ⟨hlayerwise, hprepare, _, hlayers⟩
      refine ⟨hlayerwise, fun hsome => ?_, fun hlevel layerId hlayer => ?_, fun i hi => ?_,
        fun layerId hlayer => (hlayers layerId hlayer).2.2⟩
      · exact not_not.mp fun hlen => hsquare ⟨hdual.trans hsome, hlen⟩
      · exact (hlayers layerId hlayer).2.1 hlevel
      · cases i with
        | zero => exact hprepare
        | succ layerId => exact (hlayers layerId hi).1
    · intro h
      exact ⟨h.layerwise, h.transfers 0 (Nat.zero_le _), Nat.succ_pos _, fun layerId hlayer =>
        ⟨h.transfers (layerId + 1) hlayer, fun hlevel => h.encodes hlevel layerId hlayer,
          h.puts layerId hlayer⟩⟩
  · intro layerId hlayer R
    have hputs := layerPuts_ok_iff py hbase (mem_range.mp hlayer) calls.allocations
      (fun layerId => stored.map fun segment => layerKey layerId (baseKey segment.2.2))
      (fun layerId => stored.map fun segment => layerKey layerId (fullKey segment.2.2))
      (fun layerId => stored.map fun segment => kv layerId (segment.1, segment.2.1))
    rw [length_map] at hputs
    rw [← hputs]
    simp only [ends_bind, ends_yield, ends_resume, ends_raising, ends_require,
      GPUConnector.length_batchedFromGpu]
    have hlt := mem_range.mp hlayer
    constructor
    · rintro ⟨htransfer, _, events, hevents, hput, hR⟩
      exact ⟨⟨htransfer, ⟨events, hevents⟩, hput⟩, hR⟩
    · rintro ⟨⟨htransfer, ⟨events, hevents⟩, hput⟩, hR⟩
      exact ⟨htransfer, Nat.succ_lt_succ hlt, events, hevents, hput, hR⟩

def layerChunks (calls : StoreCalls F) (segments : List (ℕ × ℕ × EngineKey F)) : ℕ :=
  chunksAllocated calls.allocations.chunk 0
    (segments.filter fun segment => !calls.present (layerKey 0 segment.2.2)).length

theorem ends_allocatedGenerator (py : StoreBuiltins F D) (connector : GPUConnector)
    (calls : StoreCalls F) (hdual : targets.isSome = engine.shouldDualStoreBase level)
    {keysBySpan : Option (Dict (ℕ × ℕ) (List (LayerEngineKey F)))}
    (hsame : keysBySpan.isSome = targets.isSome) (baseKey fullKey : ℤ → EngineKey F)
    (segments : List (ℕ × ℕ × ℤ))
    (hkeys : ∀ d ∈ keysBySpan, ∀ segment ∈ segments, d.get? (segment.1, segment.2.1) =
      some ((fullKey segment.2.2).splitLayers engine.numLayers)) (kv : ℕ → ℕ × ℕ → D) :
    (engine.allocatedGenerator py connector calls targets level kv
        (engine.allocateLayerChunks keysBySpan calls.present calls.allocations.chunk 0
          (segments.map (keyed baseKey)))).Ends
          (fun yields _ => yields.length = engine.numLayers + 1) ↔
      (engine.numLayers = 0 → segments = []) ∧
        (layerChunks calls (segments.map (keyed baseKey)) = 0 ∨
          engine.LayersStored connector calls level
            (layerChunks calls (segments.map (keyed baseKey)))) := by
  cases hlayers : engine.numLayers with
  | zero =>
    cases segments with
    | nil =>
      refine iff_of_true ?_ ⟨fun _ => rfl, .inl (by rw [layerChunks]; rfl)⟩
      simp [allocatedGenerator, allocateLayerChunks, storedGenerator, hlayers]
    | cons segment segments =>
      refine iff_of_false ?_ fun h => cons_ne_nil _ _ (h.1 rfl)
      rw [map_cons, allocateLayerChunks.eq_def, hlayers]
      simp [allocatedGenerator, EngineKey.splitLayers]
  | succ n =>
    rw [forall_prop_of_false (Nat.succ_ne_zero n), true_and, ← hlayers,
      allocateLayerChunks_eq hlayers hkeys calls.present calls.allocations.chunk 0 rfl, hsame,
      allocatedGenerator]
    simp only [ends_bind, ends_raising, nil_append]
    have hchunks : (segments.map (keyed baseKey)).filter (fun segment =>
        !calls.present (layerKey 0 segment.2.2)) =
          (segments.filter (absent calls.present baseKey)).map (keyed baseKey) := by
      rw [filter_map]
      rfl
    rw [layerChunks, hchunks, length_map]
    have hlength := length_take_of_le (chunksAllocated_le calls.allocations.chunk 0
      (segments.filter (absent calls.present baseKey)).length)
    have hstored := ends_storedGenerator py connector calls hdual
      baseKey fullKey kv ((segments.filter (absent calls.present baseKey)).take
        (chunksAllocated calls.allocations.chunk 0
          (segments.filter (absent calls.present baseKey)).length))
    rw [hlength] at hstored
    simpa using hstored

structure StoreServed (py : StoreBuiltins F D) (engine : StoreEngine F E)
    (connector : GPUConnector) (calls : StoreCalls F) (level : Option FidelityLevel)
    (segments : List (ℕ × ℕ × EngineKey F)) : Prop where
  targets : engine.shouldDualStoreBase level = true →
    ∃ targets, engine.dualStoreTargets py = .ok targets
  layers : engine.numLayers = 0 → segments = []
  stored : layerChunks calls segments = 0 ∨
    engine.LayersStored connector calls level (layerChunks calls segments)

theorem storeServed_iff (baseKey : ℤ → EngineKey F) (segments : List (ℕ × ℕ × ℤ)) :
    StoreServed py engine connector calls level (segments.map (keyed baseKey)) ↔
      (engine.shouldDualStoreBase level = true → ∃ targets,
        engine.dualStoreTargets py = .ok targets) ∧
      (engine.numLayers = 0 → segments = []) ∧
        (layerChunks calls (segments.map (keyed baseKey)) = 0 ∨
          engine.LayersStored connector calls level
            (layerChunks calls (segments.map (keyed baseKey)))) :=
  ⟨fun h => ⟨h.targets, fun hzero => map_eq_nil_iff.mp (h.layers hzero), h.stored⟩,
    fun h => ⟨h.1, fun hzero => map_eq_nil_iff.mpr (h.2.1 hzero), h.2.2⟩⟩

variable {mask : Option (List Bool)}

theorem ends_targets (py : StoreBuiltins F D) (connector : GPUConnector) (calls : StoreCalls F)
    (kv : ℕ → ℕ × ℕ → D) {tokens : List ℕ} {segments : List (ℕ × ℕ × ℤ)}
    (hspans : engine.spans (.tokens tokens) mask = .ok segments)
    (configs : Option (RequestConfigs F)) (level : Option FidelityLevel) :
    (∃ selected, engine.layerTargets py tokens mask configs level = .ok selected ∧
      (engine.allocatedGenerator py connector calls selected.1 level kv
        (engine.allocateLayerChunks selected.2 calls.present calls.allocations.chunk 0
          (segments.map (keyed (engine.makeKeyByHash configs))))).Ends
            fun yields _ => yields.length = engine.numLayers + 1) ↔
      StoreServed py engine connector calls level
        (segments.map (keyed (engine.makeKeyByHash configs))) := by
  rw [layerTargets, storeServed_iff]
  by_cases hdual : engine.shouldDualStoreBase level = true
  · rw [if_pos hdual, forall_prop_of_true hdual]
    cases htargets : engine.dualStoreTargets py with
    | error error => simp [bind, Except.bind]
    | ok targets =>
      have hfull : engine.makeKeyByHash (engine.requestConfigsForLevel configs .full) = _ := rfl
      obtain ⟨keysBySpan, hkeysBySpan, hkeys⟩ := fullKeysBySpan_eq hspans hfull
      have hsome : (some targets).isSome = engine.shouldDualStoreBase level := hdual ▸ rfl
      have hserved := ends_allocatedGenerator py connector calls hsome
        (rfl : (some keysBySpan).isSome = true) (engine.makeKeyByHash configs) _ segments
        (fun d hd => Option.mem_some.mp hd ▸ hkeys) kv
      simp only [hkeysBySpan, bind, Except.bind, pure, Except.pure, Except.ok.injEq,
        exists_eq_left', exists_eq', true_and]
      exact hserved
  · have hnone : Option.isSome (none : Option (Option (List Char) × Option (List Char))) =
        engine.shouldDualStoreBase level := (Bool.not_eq_true _).mp hdual ▸ rfl
    have hserved := ends_allocatedGenerator py connector calls hnone
      (rfl : Option.isSome (none : Option (Dict (ℕ × ℕ) (List (LayerEngineKey F)))) = false)
      (engine.makeKeyByHash configs) (engine.makeKeyByHash configs) segments
      (fun _ hmem => absurd hmem (Option.not_mem_none _)) kv
    rw [if_neg hdual, forall_prop_of_false hdual]
    simp only [Except.ok.injEq, exists_eq_left', true_and]
    exact hserved

theorem normalized_iff_storeSelection (py : StoreBuiltins F D) (engine : StoreEngine F E)
    {tokens : List ℕ} {configs : Option (RequestConfigs F)}
    {R : Option (RequestConfigs F) × Option FidelityLevel → Prop}
    {P : Option FidelityLevel → List (ℕ × ℕ × EngineKey F) → Prop}
    (hraises : ∀ message, engine.spans (.tokens tokens) mask = .error message → ∀ pair, ¬R pair)
    (hspans : ∀ segments, engine.spans (.tokens tokens) mask = .ok segments → ∀ configs level,
      R (configs, level) ↔ P level (segments.map (keyed (engine.makeKeyByHash configs)))) :
    (∃ pair, engine.normalized py configs tokens = .ok pair ∧ R pair) ↔ ∃ level segments,
      engine.storeSelection py.toBuiltins (.tokens tokens) configs mask = .ok (level, segments) ∧
        P level segments := by
  cases hconfigs : engine.normalizeConfigs py.toBuiltins configs
    (CacheRequest.tokens tokens).tokens? (CacheRequest.tokens tokens).hashes?
      (CacheRequest.tokens tokens).offsets? with
  | error error =>
    rw [storeSelection_error_of_configs hconfigs]
    simp only [CacheRequest.tokens?, CacheRequest.hashes?, CacheRequest.offsets?] at hconfigs
    simp [normalized, hconfigs, Except.mapError]
  | ok pair =>
    obtain ⟨normalizedConfigs, level⟩ := pair
    rw [storeSelection_eq_spans hconfigs]
    simp only [CacheRequest.tokens?, CacheRequest.hashes?, CacheRequest.offsets?] at hconfigs
    simp only [normalized, hconfigs, Except.mapError, Except.ok.injEq, exists_eq_left']
    cases hselected : engine.spans (.tokens tokens) mask with
    | error message => simpa [Except.map] using hraises message hselected (normalizedConfigs, level)
    | ok segments =>
      simp [Except.map, hspans segments hselected]

theorem ends_storeLayerGenerator (py : StoreBuiltins F D) (engine : StoreEngine F E)
    (connector : GPUConnector) (calls : StoreCalls F) (tokens : List ℕ) (mask : Option (List Bool))
    (configs : Option (RequestConfigs F)) (kv : ℕ → ℕ × ℕ → D) :
    ((engine.storeLayerGenerator py connector calls tokens mask configs kv).Ends
        fun yields _ => yields.length = engine.numLayers + 1) ↔
      engine.healthy = true ∧ engine.frozen = false ∧ ∃ level segments,
        engine.storeSelection py.toBuiltins (.tokens tokens) configs mask = .ok (level, segments) ∧
          StoreServed py engine connector calls level segments := by
  rw [storeLayerGenerator]
  cases engine.healthy with
  | false => simp
  | true =>
    cases engine.frozen with
    | true => simp
    | false =>
      simp only [Bool.not_true, Bool.false_eq_true, if_false, true_and, ends_bind, ends_raising,
        nil_append]
      refine normalized_iff_storeSelection py engine (fun message hspans pair => ?_)
        fun segments hspans normalizedConfigs level => ?_
      · simp [segmentsOf_eq, hspans, Except.map, Except.mapError]
      · simp only [segmentsOf_eq, hspans, Except.map, Except.mapError, Except.ok.injEq,
          exists_eq_left', ends_targets py connector calls kv hspans normalizedConfigs level]

end Store

section Retrieve

variable {F E D : Type} {py : StoreBuiltins F D} {engine : StoreEngine F E}
  {calls : RetrieveCalls F D} {level : Option FidelityLevel}

def hitSegments (calls : RetrieveCalls F D) (segments : List (ℕ × ℕ × EngineKey F)) :
    List (ℕ × ℕ × EngineKey F) :=
  segments.takeWhile fun segment => (calls.located (layerKey 0 segment.2.2)).isSome

theorem locateHits_ok_iff {n : ℕ} (hlayers : engine.numLayers = n + 1)
    {location found : Option (List Char)} {segments hits : List (ℕ × ℕ × EngineKey F)} :
    engine.locateHits calls.located location segments = .ok (found, hits) ↔
      hits = hitSegments calls segments ∧
        (∀ segment ∈ hitSegments calls segments, calls.located (layerKey 0 segment.2.2) = found) ∧
        (hitSegments calls segments = [] ∨ location ≠ none → found = location) := by
  induction segments generalizing location hits with
  | nil =>
    simp [locateHits, hitSegments, and_comm, eq_comm]
  | cons segment segments ih =>
    rw [locateHits, hlayers, splitLayers_head]
    dsimp only
    cases hlocated : calls.located ⟨segment.2.2, 0⟩ with
    | none =>
      have hnil : hitSegments calls (segment :: segments) = [] := by
        rw [hitSegments, takeWhile_cons_of_neg]
        rw [layerKey, hlocated]
        exact Bool.false_ne_true
      rw [hnil]
      simp [and_comm, eq_comm]
    | some current =>
      have hcons : hitSegments calls (segment :: segments) =
          segment :: hitSegments calls segments := by
        rw [hitSegments, takeWhile_cons_of_pos]
        · rfl
        · rw [layerKey, hlocated]
          rfl
      rw [hcons]
      dsimp only
      by_cases hcompatible : location.getD current = current
      · rw [if_pos hcompatible]
        constructor
        · intro hmapped
          cases hrest : engine.locateHits calls.located (some current) segments with
          | error error =>
            rw [hrest] at hmapped
            cases hmapped
          | ok pair =>
            rw [hrest] at hmapped
            obtain ⟨rfl, rfl⟩ := Prod.mk.inj (Except.ok.inj hmapped)
            obtain ⟨hhits, hall, hsame⟩ := ih.mp hrest
            have hfound := hsame (.inr (Option.some_ne_none current))
            refine ⟨hhits ▸ rfl, forall_mem_cons.mpr ⟨hlocated.trans hfound.symm, hall⟩, ?_⟩
            rintro (hnil | hne)
            · exact absurd hnil (cons_ne_nil _ _)
            · obtain ⟨l, rfl⟩ := Option.ne_none_iff_exists'.mp hne
              exact hfound.trans (congrArg some hcompatible.symm)
        · rintro ⟨rfl, hall, _⟩
          have hfound := (hall segment mem_cons_self).symm.trans hlocated
          rw [ih.mpr ⟨rfl, fun s hs => hall s (mem_cons_of_mem _ hs), fun _ => hfound⟩]
          rfl
      · rw [if_neg hcompatible]
        refine iff_of_false (fun herror => nomatch herror) ?_
        rintro ⟨_, hall, hsame⟩
        cases location with
        | none => exact hcompatible rfl
        | some l =>
          have hfound := (hsame (.inr (Option.some_ne_none l))).symm.trans
            ((hall segment mem_cons_self).symm.trans hlocated)
          exact hcompatible (Option.some.inj hfound)

structure RetrieveServed (engine : StoreEngine F E) (connector : GPUConnector)
    (calls : RetrieveCalls F D) (level : Option FidelityLevel)
    (hits : List (ℕ × ℕ × EngineKey F)) (location : List Char) : Prop where
  layers : 0 < engine.numLayers
  nonempty : hits ≠ []
  located : ∀ segment ∈ hits, calls.located (layerKey 0 segment.2.2) = some location
  consumer : connector = .vllmBuffer ∨ connector = .vllmPagedMem
  prepares : calls.transfer 0 [] = true
  loads : ∀ layerId < engine.numLayers, ∃ memoryObjs decoded,
    calls.batchedGet location layerId (hits.map fun segment => layerKey layerId segment.2.2) =
        some memoryObjs ∧
      decodeMemoryObjs calls level layerId memoryObjs = some decoded ∧
        calls.transfer (layerId + 1) decoded = true
  synchronizes : calls.transfer (engine.numLayers + 1) [] = true

def RetMaskLast (tokens : List ℕ) (numLayers : ℕ) (yields : List LayerYield) : Prop :=
  yields.length = numLayers + 2 ∧
    ∃ mask, mask.length = tokens.length ∧ yields.getLast? = some (.retMask mask)

theorem ends_loadLayer (calls : RetrieveCalls F D)
    (consumer : Generator Unit (LayerError F) Unit) (location : List Char)
    (level : Option FidelityLevel) (keys : List (LayerEngineKey F)) {layerId : ℕ}
    (hlt : layerId + 1 < consumer.yields.length) {R : List LayerYield → Unit → Prop} :
    (loadLayer calls consumer location level keys layerId).Ends R ↔
      (∃ memoryObjs decoded, calls.batchedGet location layerId keys = some memoryObjs ∧
        decodeMemoryObjs calls level layerId memoryObjs = some decoded ∧
          calls.transfer (layerId + 1) decoded = true) ∧ R [] () := by
  rw [loadLayer]
  cases hget : calls.batchedGet location layerId keys with
  | none => simp
  | some memoryObjs =>
    cases hdecode : decodeMemoryObjs calls level layerId memoryObjs with
    | none => simp [hdecode]
    | some decoded => simp [hdecode, hlt]

theorem ends_loadedGenerator {n : ℕ} (hlayers : engine.numLayers = n + 1)
    (connector : GPUConnector) (calls : RetrieveCalls F D) (tokens : List ℕ)
    (level : Option FidelityLevel) (location : List Char) {hits : List (ℕ × ℕ × EngineKey F)}
    (hne : hits ≠ [])
    (hlocated : ∀ segment ∈ hits, calls.located (layerKey 0 segment.2.2) = some location) :
    (engine.loadedGenerator connector calls tokens level (some location) hits).Ends
        (fun yields _ => RetMaskLast tokens engine.numLayers yields) ↔
      RetrieveServed engine connector calls level hits location := by
  have hkeys : Columns.zipRows (hits.map fun segment =>
      segment.2.2.splitLayers engine.numLayers) =
        (range engine.numLayers).map fun layerId =>
          hits.map fun segment => layerKey layerId segment.2.2 :=
    Columns.zipRows_table hne engine.numLayers fun segment layerId => layerKey layerId segment.2.2
  rw [loadedGenerator, isEmpty_eq_false_iff.mpr hne, hkeys]
  simp only [Bool.false_eq_true, if_false, ends_bind, ends_require, ends_resume]
  rw [ends_forEach (y := fun layerId =>
    if layerId = 0 then .tokens ((retMask tokens hits).count true) else .none) (P := fun layerId => ∃ memoryObjs decoded,
      calls.batchedGet location layerId (hits.map fun segment => layerKey layerId segment.2.2) =
        some memoryObjs ∧ decodeMemoryObjs calls level layerId memoryObjs = some decoded ∧
          calls.transfer (layerId + 1) decoded = true)]
  · have hconsumer := connector.lt_length_batchedToGpu (F := F) engine.numLayers
    simp only [ends_yield, nil_append, Bool.not_false, true_and, mem_range, hconsumer]
    constructor
    · rintro ⟨_, hprepares, _, hloads, hsynchronizes, hvllm, _⟩
      exact ⟨hlayers ▸ Nat.succ_pos n, hne, hlocated, hvllm, hprepares, hloads, hsynchronizes⟩
    · intro h
      have hlayerwise : connector.isLayerwise = true := by
        rcases h.consumer with rfl | rfl <;> rfl
      have hlast : RetMaskLast tokens engine.numLayers
          ((range engine.numLayers).map (fun layerId => if layerId = 0 then
            LayerYield.tokens ((retMask tokens hits).count true) else .none) ++
              ([.none] ++ [.retMask (retMask tokens hits)])) := by
        refine ⟨by simp, retMask tokens hits, by simp [retMask], ?_⟩
        rw [getLast?_append, getLast?_append]
        rfl
      exact ⟨hlayerwise, h.prepares, hconsumer.mpr h.consumer |>.trans' (Nat.succ_pos _), h.loads,
        h.synchronizes, h.consumer, hlast⟩
  · intro layerId hlayer R
    have hlt := mem_range.mp hlayer
    have hyields : layerId + 1 < (connector.batchedToGpu engine.numLayers :
        Generator Unit (LayerError F) Unit).yields.length := by
      rw [GPUConnector.length_batchedToGpu]
      split <;> omega
    rw [ends_bind, ends_ofExcept, getElem?_map, getElem?_range hlt]
    simp only [Option.map_some, Option.elim_some, Except.ok.injEq, exists_eq_left', ends_bind,
      ends_yield, nil_append, Option.getD_some, ends_loadLayer _ _ _ _ _ hyields,
      append_nil]

theorem ends_locatedGenerator (connector : GPUConnector) (calls : RetrieveCalls F D)
    (tokens : List ℕ) (level : Option FidelityLevel) (segments : List (ℕ × ℕ × EngineKey F)) :
    (engine.locatedGenerator connector calls tokens level segments).Ends
        (fun yields _ => RetMaskLast tokens engine.numLayers yields) ↔
      ∃ location, RetrieveServed engine connector calls level (hitSegments calls segments)
        location := by
  rw [locatedGenerator, ends_bind, ends_ofExcept]
  cases hlayers : engine.numLayers with
  | zero =>
    refine iff_of_false ?_ fun ⟨_, h⟩ => absurd h.layers (hlayers ▸ Nat.lt_irrefl 0)
    cases segments with
    | nil => simp [locateHits, loadedGenerator]
    | cons segment segments => simp [locateHits, hlayers, EngineKey.splitLayers]
  | succ n =>
    rw [← hlayers]
    constructor
    · rintro ⟨⟨found, hits⟩, hlocate, hends⟩
      obtain ⟨rfl, hlocated, _⟩ := (locateHits_ok_iff hlayers).mp hlocate
      have hne : hitSegments calls segments ≠ [] := by
        intro hnil
        simp [loadedGenerator, hnil] at hends
      obtain ⟨segment, hsegment⟩ := exists_mem_of_ne_nil _ hne
      have hsome : (calls.located (layerKey 0 segment.2.2)).isSome = true :=
        mem_takeWhile_imp (p := fun segment : ℕ × ℕ × EngineKey F =>
          (calls.located (layerKey 0 segment.2.2)).isSome) hsegment
      obtain ⟨location, hlocation⟩ := Option.isSome_iff_exists.mp hsome
      obtain rfl := (hlocated segment hsegment).symm.trans hlocation
      exact ⟨location, (ends_loadedGenerator hlayers connector calls tokens level location hne
        hlocated).mp hends⟩
    · rintro ⟨location, h⟩
      refine ⟨(some location, hitSegments calls segments), (locateHits_ok_iff hlayers).mpr
        ⟨rfl, h.located, fun hfirst => ?_⟩, (ends_loadedGenerator hlayers connector calls tokens
          level location h.nonempty h.located).mpr h⟩
      rcases hfirst with hnil | hne
      · exact absurd hnil h.nonempty
      · exact absurd rfl hne

theorem ends_retrieveLayerGenerator (py : StoreBuiltins F D) (engine : StoreEngine F E)
    (connector : GPUConnector) (calls : RetrieveCalls F D) (tokens : List ℕ)
    (mask : Option (List Bool)) (configs : Option (RequestConfigs F)) :
    ((engine.retrieveLayerGenerator py connector calls tokens mask configs).Ends
        fun yields _ => RetMaskLast tokens engine.numLayers yields) ↔
      engine.healthy = true ∧ ∃ level segments,
        engine.storeSelection py.toBuiltins (.tokens tokens) configs mask = .ok (level, segments) ∧
          ∃ location, RetrieveServed engine connector calls level (hitSegments calls segments)
            location := by
  rw [retrieveLayerGenerator]
  cases engine.healthy with
  | false => simp [RetMaskLast]
  | true =>
    simp only [Bool.not_true, Bool.false_eq_true, if_false, true_and, ends_bind, ends_raising,
      nil_append]
    refine normalized_iff_storeSelection py engine (fun message hspans pair => ?_)
      fun segments hspans normalizedConfigs level => ?_
    · simp [segmentsOf_eq, hspans, Except.map, Except.mapError]
    · simp only [segmentsOf_eq, hspans, Except.map, Except.mapError, Except.ok.injEq,
        exists_eq_left', ends_locatedGenerator]

theorem layerGenerators_iff (py : StoreBuiltins F D) (engine : StoreEngine F E)
    (connector : GPUConnector) (stores : StoreCalls F) (retrieves : RetrieveCalls F D)
    (tokens : List ℕ) (mask : Option (List Bool)) (configs : Option (RequestConfigs F))
    (kv : ℕ → ℕ × ℕ → D) :
    (((engine.storeLayerGenerator py connector stores tokens mask configs kv).Ends
        fun yields _ => yields.length = engine.numLayers + 1) ↔
      engine.healthy = true ∧ engine.frozen = false ∧ ∃ level segments,
        engine.storeSelection py.toBuiltins (.tokens tokens) configs mask = .ok (level, segments) ∧
          StoreServed py engine connector stores level segments) ∧
    (((engine.retrieveLayerGenerator py connector retrieves tokens mask configs).Ends
        fun yields _ => RetMaskLast tokens engine.numLayers yields) ↔
      engine.healthy = true ∧ ∃ level segments,
        engine.storeSelection py.toBuiltins (.tokens tokens) configs mask = .ok (level, segments) ∧
          ∃ location, RetrieveServed engine connector retrieves level
            (hitSegments retrieves segments) location) :=
  ⟨ends_storeLayerGenerator py engine connector stores tokens mask configs kv,
    ends_retrieveLayerGenerator py engine connector retrieves tokens mask configs⟩

def workingStores : StoreCalls ℤ := ⟨fun _ => false, roomFor 2, fun _ => true, fun _ => true⟩

def emptyCache : RetrieveCalls ℤ ℕ :=
  ⟨fun _ => none, fun _ _ keys => some (keys.map LayerEngineKey.layerId), fun _ => some,
    fun _ _ => true⟩

theorem not_layerGenerators_frozen :
    ¬ (({ dualEngine with frozen := true }.storeLayerGenerator tenfold .vllmPagedMem workingStores
        [1, 2, 3, 4, 5, 6] none none fun _ span => span.2).Ends
          fun yields _ => yields.length = 2 + 1) ∧
      ¬ ((dualEngine.retrieveLayerGenerator tenfold .vllmPagedMem emptyCache [1, 2, 3, 4, 5, 6] none
        none).Ends fun yields _ => RetMaskLast [1, 2, 3, 4, 5, 6] 2 yields) := by
  constructor
  · intro h
    obtain ⟨_, hfrozen, _⟩ := (ends_storeLayerGenerator _ _ _ _ _ _ _ _).mp h
    exact Bool.noConfusion hfrozen
  · intro h
    obtain ⟨_, _, segments, _, _, hserved⟩ := (ends_retrieveLayerGenerator _ _ _ _ _ _ _).mp h
    apply hserved.nonempty
    cases segments <;> rfl

end Retrieve

end StoreEngine

end LMCache.Fidelity
