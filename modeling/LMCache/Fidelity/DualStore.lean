import LMCache.Fidelity.EngineKeys

namespace LMCache

def Utils.TorchDtype.isFloatingPoint : Utils.TorchDtype → Bool
  | .float16 | .bfloat16 | .float32 | .float64 => true
  | .float8E4m3fn | .float8E4m3fnuz | .float8E5m2 | .float8E5m2fnuz => true
  | .int8 | .uint8 | .int16 | .int32 | .int64 | .bool => false

namespace Fidelity

open Numeral Text

structure LayerEngineKey (F : Type) extends EngineKey F where
  layerId : ℕ
deriving DecidableEq

def EngineKey.splitLayers {F : Type} (key : EngineKey F) (numLayers : ℕ) :
    List (LayerEngineKey F) :=
  (List.range numLayers).map fun layerId => ⟨key, layerId⟩

inductive BaseCodec where
  | fake
  | int8
deriving DecidableEq

structure StoreBuiltins (F D : Type) extends Builtins F where
  lower : List Char → List Char
  quantize : D → D

structure StoreEngine (F E : Type) extends FidelityEngine F E where
  storeBaseVariant : Bool
  storeFullVariant : Bool
  cleanupBaseOnFullStore : Bool
  storeBaseTarget : Option (List Char)
  storeFullTarget : Option (List Char)
  storeLocation : Option (List Char)
  storageBackends : List (List Char)
  baseCodec : BaseCodec
  layerGroupDtypes : List Utils.TorchDtype
  numLayers : ℕ
  healthy : Bool
  passive : Bool
  frozen : Bool

structure Allocations where
  chunk : ℕ → Bool
  encoded : ℕ → ℕ → Bool

inductive StoreError (F : Type) where
  | engine (error : EngineError F)
  | targetUnavailable (target : Option (List Char)) (location : List Char)
  | assertionFailed
  | baseTarget (location : Option (List Char))
  | fullTarget
  | keyMismatch (baseChunks fullChunks : ℕ)
  | keyMissing (start stop : ℕ)
  | layerKeyMismatch (baseChunks fullChunks : ℕ)
  | unequalLengths
  | notFloating (dtype : Utils.TorchDtype)
  | encodeAllocation
  | indexError

def StoreError.isKeyMismatch {F : Type} : StoreError F → Bool
  | .keyMismatch _ _ => true
  | .keyMissing _ _ => true
  | .layerKeyMismatch _ _ => true
  | _ => false

inductive StoreEvent (K D : Type) where
  | put (location : Option (List Char)) (keys : List K) (memoryObjs : List D)
  | remove (location : Option (List Char)) (keys : List K)

def StoreEvent.submitted {K D : Type} (location : List Char) : StoreEvent K D → List (K × D)
  | .put target keys memoryObjs => if target = some location then keys.zip memoryObjs else []
  | .remove _ _ => []

structure StoreRun (F K D : Type) where
  allocated : List (ℕ × ℕ × EngineKey F)
  events : List (StoreEvent K D)
  error : Option (StoreError F)

def StoreRun.submitted {F K D : Type} (run : StoreRun F K D) (location : List Char) :
    List (K × D) :=
  run.events.flatMap (StoreEvent.submitted location)

def cpuName : List Char := "LocalCPUBackend".toList

def diskName : List Char := "LocalDiskBackend".toList

def targetNames : List (List Char × List Char) :=
  [("local_cpu".toList, cpuName), ("cpu".toList, cpuName), ("localdisk".toList, diskName),
    ("local_disk".toList, diskName), ("disk".toList, diskName)]

namespace StoreEngine

section Parts

variable {F E D K : Type} (py : StoreBuiltins F D) (engine : StoreEngine F E)

def getDtypes : List Utils.TorchDtype :=
  if engine.layerGroupDtypes = [] then [engine.metadata.kvDtype] else engine.layerGroupDtypes

def resolveFidelityStoreLocation (target : Option (List Char)) (requireAvailable : Bool) :
    Except (StoreError F) (Option (List Char) × Bool) :=
  let targetName := strip (target.getD [])
  if targetName = [] ∨ py.lower targetName ∈ ["default".toList, "store_location".toList] then
    .ok (engine.storeLocation, true)
  else
    let location := (targetNames.lookup (py.lower targetName)).getD targetName
    if location ∈ engine.storageBackends then .ok (some location, true)
    else if requireAvailable then .error (.targetUnavailable target location)
    else .ok (none, false)

def validateDualStoreTargets (baseStoreLocation fullStoreLocation : Option (List Char)) :
    Except (StoreError F) Unit :=
  if baseStoreLocation ≠ some cpuName then .error (.baseTarget baseStoreLocation)
  else if fullStoreLocation = none then .error .fullTarget
  else .ok ()

def dualStoreTargets : Except (StoreError F) (Option (List Char) × Option (List Char)) := do
  let (baseStoreLocation, baseTargetOk) ←
    engine.resolveFidelityStoreLocation py engine.storeBaseTarget true
  let (fullStoreLocation, fullTargetOk) ←
    engine.resolveFidelityStoreLocation py engine.storeFullTarget true
  if !(baseTargetOk && fullTargetOk) then throw .assertionFailed
  validateDualStoreTargets baseStoreLocation fullStoreLocation
  return (baseStoreLocation, fullStoreLocation)

def shouldDualStoreBase (level : Option FidelityLevel) : Bool :=
  engine.config.enableFidelityCache && level == some .base && engine.storeBaseVariant &&
    engine.storeFullVariant

def shouldCleanupBaseOnFullStore (level : Option FidelityLevel) : Bool :=
  engine.config.enableFidelityCache && level == some .full && engine.cleanupBaseOnFullStore

def requestConfigsForLevel (configs : Option (RequestConfigs F)) (level : FidelityLevel) :
    Option (RequestConfigs F) :=
  if engine.config.enableFidelityCache then some (Fidelity.requestConfigsForLevel configs level)
  else configs

def segmentsOf (request : CacheRequest) (mask : Option (List Bool))
    (configs : Option (RequestConfigs F)) :
    Except (StoreError F) (List (ℕ × ℕ × EngineKey F)) :=
  (engine.processTokens configs request.tokens? request.hashes? request.offsets? mask).mapError
    .engine

def buildVariantKeys (request : CacheRequest) (mask : Option (List Bool))
    (configs : Option (RequestConfigs F)) (level : FidelityLevel) :
    Except (StoreError F) (List (EngineKey F)) :=
  (engine.segmentsOf request mask (engine.requestConfigsForLevel configs level)).map
    (List.map fun segment => segment.2.2)

variable (dtypes : List Utils.TorchDtype)

def encode (allocated : Bool) (memoryObj : D) : Except (StoreError F) D :=
  match engine.baseCodec with
  | .fake => .ok memoryObj
  | .int8 =>
      match dtypes.find? fun dtype => !dtype.isFloatingPoint with
      | some dtype => .error (.notFloating dtype)
      | none => if allocated then .ok (py.quantize memoryObj) else .error .encodeAllocation

def encodeAll (dtypes : List Utils.TorchDtype) (allocated : ℕ → Bool) :
    ℕ → List D → Except (StoreError F) (List D)
  | _, [] => .ok []
  | i, memoryObj :: memoryObjs => do
      let encoded ← engine.encode py dtypes (allocated i) memoryObj
      let rest ← encodeAll dtypes allocated (i + 1) memoryObjs
      return encoded :: rest

def dualPuts (allocated : ℕ → Bool) (baseStoreLocation fullStoreLocation : Option (List Char))
    (keys fullKeys : List K) (memoryObjs : List D) :
    Except (StoreError F) (List (StoreEvent K D)) := do
  let baseMemoryObjs ← engine.encodeAll py dtypes allocated 0 memoryObjs
  return [.put fullStoreLocation fullKeys memoryObjs, .put baseStoreLocation keys baseMemoryObjs]

def singlePuts (allocated : ℕ → Bool) (level : Option FidelityLevel) (keys : List K)
    (memoryObjs : List D) :
    Except (StoreError F) (List (StoreEvent K D)) := do
  let memoryObjs ← if level = some .base then engine.encodeAll py dtypes allocated 0 memoryObjs
    else .ok memoryObjs
  return [.put engine.storeLocation keys memoryObjs]

end Parts

section Store

variable {F E D : Type} (py : StoreBuiltins F D) (engine : StoreEngine F E)

def allocateChunks {K : Type} (allocated : ℕ → Bool) :
    ℕ → List (ℕ × ℕ × K) → List (ℕ × ℕ × K)
  | _, [] => []
  | i, segment :: segments =>
      if allocated i then segment :: allocateChunks allocated (i + 1) segments else []

variable (request : CacheRequest) (mask : Option (List Bool)) (configs : Option (RequestConfigs F))

def storePuts (level : Option FidelityLevel) (stored : List (ℕ × ℕ × EngineKey F))
    (allocations : Allocations) (kv : ℕ × ℕ → D) :
    Except (StoreError F) (List (StoreEvent (EngineKey F) D)) :=
  let keys := stored.map fun segment => segment.2.2
  let memoryObjs := stored.map fun segment => kv (segment.1, segment.2.1)
  if engine.shouldDualStoreBase level then do
    let (baseStoreLocation, fullStoreLocation) ← engine.dualStoreTargets py
    let fullKeys ← engine.buildVariantKeys request mask configs .full
    if fullKeys.length ≠ keys.length then throw (.keyMismatch keys.length fullKeys.length)
    engine.dualPuts py engine.getDtypes (allocations.encoded 0) baseStoreLocation
      fullStoreLocation keys fullKeys memoryObjs
  else
    engine.singlePuts py engine.getDtypes (allocations.encoded 0) level keys memoryObjs

def cleanupBaseVariant (level : Option FidelityLevel) :
    Except (StoreError F) (List (StoreEvent (EngineKey F) D)) :=
  if engine.shouldCleanupBaseOnFullStore level then do
    let (baseStoreLocation, baseTargetOk) ←
      engine.resolveFidelityStoreLocation py engine.storeBaseTarget false
    if !baseTargetOk then return []
    let baseKeys ← engine.buildVariantKeys request mask configs .base
    if baseKeys.isEmpty then return []
    return [.remove (baseStoreLocation.filter (· ≠ [])) baseKeys]
  else .ok []

def store (allocations : Allocations) (kv : ℕ × ℕ → D) : StoreRun F (EngineKey F) D :=
  if !engine.healthy || engine.passive || engine.frozen then ⟨[], [], none⟩
  else
    match engine.normalizeConfigs py.toBuiltins configs request.tokens? request.hashes?
        request.offsets? with
    | .error error => ⟨[], [], some (.engine (.fidelity error))⟩
    | .ok (configs, level) =>
        match engine.segmentsOf request mask configs with
        | .error error => ⟨[], [], some error⟩
        | .ok segments =>
            let stored := allocateChunks allocations.chunk 0 segments
            if stored.isEmpty then ⟨[], [], none⟩
            else
              match engine.storePuts py request mask configs level stored allocations kv with
              | .error error => ⟨stored, [], some error⟩
              | .ok puts =>
                  match engine.cleanupBaseVariant py request mask configs level with
                  | .error error => ⟨stored, puts, some error⟩
                  | .ok removals => ⟨stored, puts ++ removals, none⟩

end Store

section StoreLayer

variable {F E D : Type} (py : StoreBuiltins F D) (engine : StoreEngine F E)

structure LayerChunks (F : Type) where
  chunks : List (ℕ × ℕ × EngineKey F)
  fullKeys : List (List (LayerEngineKey F))

def LayerChunks.cons {F : Type} (segment : ℕ × ℕ × EngineKey F)
    (fullKeys : List (List (LayerEngineKey F))) (rest : LayerChunks F) : LayerChunks F :=
  ⟨segment :: rest.chunks, fullKeys ++ rest.fullKeys⟩

def fullKeysBySpan (tokens : List ℕ) (mask : Option (List Bool))
    (configs : Option (RequestConfigs F)) :
    Except (StoreError F) (Dict (ℕ × ℕ) (List (LayerEngineKey F))) :=
  (engine.segmentsOf (.tokens tokens) mask (engine.requestConfigsForLevel configs .full)).map
    fun segments => Dict.empty.setAll (segments.map fun segment =>
      ((segment.1, segment.2.1), segment.2.2.splitLayers engine.numLayers))

def allocateLayerChunks (fullKeysOf : Option (Dict (ℕ × ℕ) (List (LayerEngineKey F))))
    (present : LayerEngineKey F → Bool) (allocated : ℕ → Bool) :
    ℕ → List (ℕ × ℕ × EngineKey F) → LayerChunks F × Option (StoreError F)
  | _, [] => (⟨[], []⟩, none)
  | i, segment :: segments =>
      match (segment.2.2.splitLayers engine.numLayers)[0]? with
      | none => (⟨[], []⟩, some .indexError)
      | some firstKey =>
          if present firstKey then
            allocateLayerChunks fullKeysOf present allocated i segments
          else if allocated i then
            match fullKeysOf with
            | none =>
                let rest := allocateLayerChunks fullKeysOf present allocated (i + 1) segments
                (rest.1.cons segment [], rest.2)
            | some keysBySpan =>
                match keysBySpan.get? (segment.1, segment.2.1) with
                | none => (⟨[segment], []⟩, some (.keyMissing segment.1 segment.2.1))
                | some fullKeys =>
                    let rest :=
                      allocateLayerChunks fullKeysOf present allocated (i + 1) segments
                    (rest.1.cons segment [fullKeys], rest.2)
          else (⟨[], []⟩, none)

def layerPuts (targets : Option (Option (List Char) × Option (List Char)))
    (level : Option FidelityLevel) (allocations : Allocations) (keys fullKeys : List
      (List (LayerEngineKey F))) (memoryObjs : List (List D)) (layerId : ℕ) :
    Except (StoreError F) (List (StoreEvent (LayerEngineKey F) D)) :=
  match keys[layerId]?, memoryObjs[layerId]?, targets with
  | some layerKeys, some layerObjs, none =>
      engine.singlePuts py [engine.metadata.kvDtype] (allocations.encoded layerId) level layerKeys
        layerObjs
  | some layerKeys, some layerObjs, some (baseStoreLocation, fullStoreLocation) =>
      match fullKeys[layerId]? with
      | none => .error .indexError
      | some layerFullKeys =>
          engine.dualPuts py [engine.metadata.kvDtype] (allocations.encoded layerId)
            baseStoreLocation fullStoreLocation layerKeys layerFullKeys layerObjs
  | _, _, _ => .error .indexError

def putLayers {ε : Type} (puts : ℕ → Except ε (List (StoreEvent (LayerEngineKey F) D))) :
    List ℕ → List (StoreEvent (LayerEngineKey F) D) × Option ε
  | [] => ([], none)
  | layerId :: layerIds =>
      match puts layerId with
      | .error error => ([], some error)
      | .ok events =>
          let rest := putLayers puts layerIds
          (events ++ rest.1, rest.2)

def layerMajor (dual : Bool) (stored : LayerChunks F) (kv : ℕ → ℕ × ℕ → D) :
    Except (StoreError F)
      (List (List (LayerEngineKey F)) × List (List (LayerEngineKey F)) × List (List D)) := do
  let memoryObjs := Columns.zipRows (Columns.table stored.chunks engine.numLayers
    fun segment layerId => kv layerId (segment.1, segment.2.1))
  let keys := Columns.zipRows (stored.chunks.map fun segment =>
    segment.2.2.splitLayers engine.numLayers)
  if dual then
    if stored.fullKeys.length ≠ keys.length then
      throw (.layerKeyMismatch keys.length stored.fullKeys.length)
    match Columns.zipRowsStrict stored.fullKeys with
    | none => throw .unequalLengths
    | some fullKeys => return (keys, fullKeys, memoryObjs)
  else return (keys, stored.fullKeys, memoryObjs)

def storeLayerChunks (targets : Option (Option (List Char) × Option (List Char)))
    (level : Option FidelityLevel) (allocations : Allocations) (kv : ℕ → ℕ × ℕ → D)
    (stored : LayerChunks F × Option (StoreError F)) : StoreRun F (LayerEngineKey F) D :=
  match stored.2 with
  | some error => ⟨stored.1.chunks, [], some error⟩
  | none =>
      if stored.1.chunks.isEmpty then ⟨[], [], none⟩
      else
        match engine.layerMajor targets.isSome stored.1 kv with
        | .error error => ⟨stored.1.chunks, [], some error⟩
        | .ok (keys, fullKeys, memoryObjs) =>
            let puts := putLayers (engine.layerPuts py targets level allocations keys fullKeys
              memoryObjs) (List.range engine.numLayers)
            ⟨stored.1.chunks, puts.1, puts.2⟩

def layerTargets (tokens : List ℕ) (mask : Option (List Bool))
    (configs : Option (RequestConfigs F)) (level : Option FidelityLevel) :
    Except (StoreError F) (Option (Option (List Char) × Option (List Char)) ×
      Option (Dict (ℕ × ℕ) (List (LayerEngineKey F)))) :=
  if engine.shouldDualStoreBase level then do
    let targets ← engine.dualStoreTargets py
    let keysBySpan ← engine.fullKeysBySpan tokens mask configs
    return (some targets, some keysBySpan)
  else .ok (none, none)

def storeLayer (tokens : List ℕ) (mask : Option (List Bool))
    (configs : Option (RequestConfigs F)) (present : LayerEngineKey F → Bool)
    (allocations : Allocations) (kv : ℕ → ℕ × ℕ → D) : StoreRun F (LayerEngineKey F) D :=
  if !engine.healthy || engine.frozen then ⟨[], [], none⟩
  else
    match engine.normalizeConfigs py.toBuiltins configs (some tokens) none none with
    | .error error => ⟨[], [], some (.engine (.fidelity error))⟩
    | .ok (configs, level) =>
        match engine.layerTargets py tokens mask configs level with
        | .error error => ⟨[], [], some error⟩
        | .ok (targets, keysBySpan) =>
            match engine.segmentsOf (.tokens tokens) mask configs with
            | .error error => ⟨[], [], some error⟩
            | .ok segments =>
                engine.storeLayerChunks py targets level allocations kv
                  (engine.allocateLayerChunks keysBySpan present allocations.chunk 0 segments)

end StoreLayer

end StoreEngine

end Fidelity

end LMCache
