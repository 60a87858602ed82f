import LMCache.Fidelity.Policy
import LMCache.CacheEngine.LookupPins
import LMCache.TokenDatabase

namespace LMCache.Fidelity

open Numeral Text

structure EngineKey (F : Type) where
  modelName : List Char
  worldSize : ℤ
  workerId : ℤ
  chunkHash : ℤ
  dtype : Utils.TorchDtype
  tags : Option (List (List Char × ConfigValue F))
deriving DecidableEq

structure EngineMetadata where
  modelName : List Char
  worldSize : ℤ
  workerId : ℤ
  kvDtype : Utils.TorchDtype

structure FidelityEngine (F E : Type) where
  config : FidelityConfig F
  metadata : EngineMetadata
  tokenDatabase : ChunkedTokenDatabase ℤ E
  states : FidelityStateStore (List Char)

inductive CacheRequest where
  | tokens (ts : List ℕ)
  | hashes (hs : List ℤ) (offs : List ℕ)

def CacheRequest.tokens? : CacheRequest → Option (List ℕ)
  | tokens ts => some ts
  | hashes _ _ => none

def CacheRequest.hashes? : CacheRequest → Option (List ℤ)
  | tokens _ => none
  | hashes hs _ => some hs

def CacheRequest.offsets? : CacheRequest → Option (List ℕ)
  | tokens _ => none
  | hashes _ offs => some offs

inductive EngineError (F : Type) where
  | fidelity (error : FidelityError F)
  | tokens (message : String)

section Engine

variable {F E : Type} (py : Builtins F)

def joinNumbers (texts : List (List Char)) : List Char := [','].intercalate texts

def tokensPayload (tokens : List ℕ) : List Char :=
  joinNumbers (tokens.map fun token => formatInt 10 token)

def hashesPayload (hashes : List ℤ) (offsets : Option (List ℕ)) : List Char :=
  "hashes:".toList ++ joinNumbers (hashes.map (formatInt 10)) ++
    match offsets with
    | none => []
    | some offsets =>
        "|offsets:".toList ++ joinNumbers (offsets.map fun offset => formatInt 10 offset)

def internalStatePrefixId (configs : RequestConfigs F) (tokens : Option (List ℕ))
    (hashes : Option (List ℤ)) (offsets : Option (List ℕ)) : Option (List Char) :=
  if py.truthy (get configs prefixIdKey) then some (py.str (get configs prefixIdKey))
  else
    match tokens, hashes with
    | some tokens, _ => some (py.digest (tokensPayload tokens))
    | none, some hashes => some (py.digest (hashesPayload hashes offsets))
    | none, none => none

namespace FidelityEngine

variable (engine : FidelityEngine F E)

def asksState (configs : RequestConfigs F) : Bool :=
  engine.config.enableFidelityCache && engine.config.enableFidelityInternalState &&
    (engine.config.defaultFidelity == "auto".toList) && (explicitLevel py configs).isNone &&
    !configs.contains stateKey &&
    match get configs prefixStateKey with
    | .none => true
    | _ => false

variable (configs : Option (RequestConfigs F)) (tokens : Option (List ℕ))

def maybeApplyInternalFidelityState (hashes : Option (List ℤ)) (offsets : Option (List ℕ)) :
    Option (RequestConfigs F) :=
  let normalized := configs.getD Dict.empty
  if engine.asksState py normalized then
    match internalStatePrefixId py normalized tokens hashes offsets with
    | none => configs
    | some prefixId =>
        some ((normalized.set stateKey (.str (engine.states.get prefixId).value)).set prefixIdKey
          (.str prefixId))
  else configs

def contextLen (offsets : Option (List ℕ)) : ℕ :=
  match tokens, offsets with
  | some tokens, _ => tokens.length
  | none, some offsets => offsets.sum
  | none, none => 0

def normalizeConfigs (hashes : Option (List ℤ)) (offsets : Option (List ℕ)) :
    Except (FidelityError F) (Option (RequestConfigs F) × Option FidelityLevel) :=
  (normalizeRequestConfigs py engine.config
    (engine.maybeApplyInternalFidelityState py configs tokens hashes offsets)
    (contextLen tokens offsets)).map fun normalized =>
      (normalized.1, normalized.2.map FidelityDecision.level)

def makeKeyByHash (chunkHash : ℤ) : EngineKey F :=
  ⟨engine.metadata.modelName, engine.metadata.worldSize, engine.metadata.workerId, chunkHash,
    engine.metadata.kvDtype, Utils.tagsOf configs⟩

def processTokens (configs : Option (RequestConfigs F)) (tokens : Option (List ℕ))
    (hashes : Option (List ℤ)) (offsets : Option (List ℕ)) (mask : Option (List Bool)) :
    Except (EngineError F) (List (ℕ × ℕ × EngineKey F)) :=
  (engine.tokenDatabase.processTokens (engine.makeKeyByHash configs) tokens hashes offsets
    mask).mapError .tokens

abbrev Selection (F : Type) := Option FidelityLevel × List (ℕ × ℕ × EngineKey F)

def storeSelection (request : CacheRequest) (configs : Option (RequestConfigs F))
    (mask : Option (List Bool)) : Except (EngineError F) (Selection F) := do
  let (configs, level) ← (engine.normalizeConfigs py configs request.tokens? request.hashes?
    request.offsets?).mapError .fidelity
  let segments ← engine.processTokens configs request.tokens? request.hashes? request.offsets? mask
  return (level, segments)

def lookupSelection (request : CacheRequest) (configs : Option (RequestConfigs F)) :
    Except (EngineError F) (Selection F) := do
  let (configs, level) ← (engine.normalizeConfigs py configs request.tokens? none
    request.offsets?).mapError .fidelity
  let segments ← engine.processTokens configs request.tokens? request.hashes? request.offsets? none
  return (level, segments)

def retrieveSelection (tokens : List ℕ) (configs : Option (RequestConfigs F))
    (mask : Option (List Bool)) :
    Except (EngineError F) (Option FidelityLevel × Selection F) := do
  let (configs, level) ← (engine.normalizeConfigs py configs (some tokens) none none).mapError
    .fidelity
  let (configs, level') ← (engine.normalizeConfigs py configs (some tokens) none none).mapError
    .fidelity
  let segments ← engine.processTokens configs (some tokens) none none mask
  return (level, level', segments)

end FidelityEngine

end Engine

end LMCache.Fidelity
