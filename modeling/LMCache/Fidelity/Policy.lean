import LMCache.Fidelity.StateStore
import LMCache.Utils.CacheKeys

namespace LMCache

def FidelityLevel.value : FidelityLevel → List Char
  | .full => "full".toList
  | .base => "base".toList

def FidelityState.value : FidelityState → List Char
  | .miss => "MISS".toList
  | .baseReady => "BASE_READY".toList
  | .promoting => "PROMOTING".toList
  | .fullReady => "FULL_READY".toList
  | .fullEvicted => "FULL_EVICTED".toList

namespace Fidelity

open Numeral Text

inductive ConfigValue (F : Type) where
  | none
  | bool (b : Bool)
  | int (n : ℤ)
  | float (x : F)
  | str (s : List Char)
deriving DecidableEq

abbrev RequestConfigs (F : Type) := Dict (List Char) (ConfigValue F)

structure Builtins (F : Type) where
  zero : F
  isZero : F → Bool
  le : F → F → Bool
  ofInt : ℤ → Option F
  ofStr : List Char → Option F
  toStr : F → List Char
  upper : List Char → List Char
  digest : List Char → List Char
  upper_eq : ∀ s, (∀ c ∈ s, c.isUpper = true ∨ c = '_') → upper s = s

structure FidelityConfig (F : Type) where
  enableFidelityCache : Bool
  defaultFidelity : List Char
  fidelityAutoContextThreshold : ℤ
  fidelityAutoKvStallThresholdMs : F
  enableFidelityInternalState : Bool

structure FidelityDecision where
  level : FidelityLevel
  policy : List Char
  reason : List Char
deriving DecidableEq

inductive FidelityError (F : Type) where
  | unsupportedState (raw : ConfigValue F)
  | unsupportedDefault (defaultFidelity : List Char)
  | badFloat (value : ConfigValue F)
deriving DecidableEq

def levelOfValue {F : Type} : ConfigValue F → Option FidelityLevel
  | .str s =>
      if s = "full".toList then some .full
      else if s = "base".toList then some .base
      else none
  | _ => none

def stateKey : List Char := "lmcache.state_store_v0.state".toList

def prefixIdKey : List Char := "lmcache.state_store_v0.prefix_id".toList

def prefixStateKey : List Char := "lmcache.prefix_state".toList

def fidelityKey : List Char := "lmcache.fidelity".toList

def shortFidelityKey : List Char := "fidelity".toList

def policyKey : List Char := "lmcache.fidelity_policy".toList

def reasonKey : List Char := "lmcache.fidelity_reason".toList

def fidelityTag : List Char := "fidelity".toList

def stallKey : List Char := "lmcache.recent_kv_stall_ms".toList

def shortStallKey : List Char := "recent_kv_stall_ms".toList

section Policy

variable {F : Type} (py : Builtins F)

def get (configs : RequestConfigs F) (key : List Char) : ConfigValue F :=
  (configs.get? key).getD .none

namespace Builtins

def truthy : ConfigValue F → Bool
  | .none => false
  | .bool b => b
  | .int n => decide (n ≠ 0)
  | .float x => !py.isZero x
  | .str s => !s.isEmpty

def orElse (a b : ConfigValue F) : ConfigValue F := if py.truthy a then a else b

def str : ConfigValue F → List Char
  | .none => "None".toList
  | .bool true => "True".toList
  | .bool false => "False".toList
  | .int n => formatInt 10 n
  | .float x => py.toStr x
  | .str s => s

def float (value : ConfigValue F) : Except (FidelityError F) F :=
  let parsed := match value with
    | .none => Option.none
    | .bool b => py.ofInt b.toInt
    | .int n => py.ofInt n
    | .float x => some x
    | .str s => py.ofStr s
  match parsed with
  | some x => .ok x
  | none => .error (.badFloat value)

end Builtins

variable (configs : RequestConfigs F)

def explicitLevel : Option FidelityLevel :=
  levelOfValue (py.orElse (get configs fidelityKey) (get configs shortFidelityKey))

def stateDecisions : List (List Char × FidelityLevel × List Char) :=
  [("FULL_READY".toList, .full, "full_ready_hit".toList),
    ("PROMOTING".toList, .base, "promoting_read_base_no_duplicate".toList),
    ("BASE_READY".toList, .base, "base_ready_hit".toList),
    ("FULL_EVICTED".toList, .full, "full_evicted_reload_full_from_slow".toList),
    ("MISS".toList, .base, "miss_choose_base".toList)]

def rawState : ConfigValue F :=
  match get configs stateKey with
  | .none => get configs prefixStateKey
  | raw => raw

def decideStateStoreV0 : Except (FidelityError F) (Option FidelityDecision) :=
  match rawState configs with
  | .none => .ok none
  | raw =>
      match stateDecisions.lookup (py.upper (strip (py.str raw))) with
      | none => .error (.unsupportedState raw)
      | some (level, reason) => .ok (some ⟨level, "auto_state_store_v0".toList, reason⟩)

def recentKvStallMs : ConfigValue F :=
  (configs.get? stallKey).getD ((configs.get? shortStallKey).getD (.float py.zero))

variable (config : FidelityConfig F)

def decideThresholds (configs : RequestConfigs F) (contextLen : ℕ) :
    Except (FidelityError F) FidelityDecision :=
  match py.float (py.orElse (recentKvStallMs py configs) (.float py.zero)) with
  | .error error => .error error
  | .ok stall =>
      let long := decide (config.fidelityAutoContextThreshold ≤ contextLen)
      let threshold := config.fidelityAutoKvStallThresholdMs
      if long && py.le threshold stall then
        .ok ⟨.base, "auto".toList, "context_and_kv_stall_threshold".toList⟩
      else if long && py.le threshold py.zero then
        .ok ⟨.base, "auto".toList, "context_threshold_only".toList⟩
      else .ok ⟨.full, "auto".toList, "below_auto_threshold".toList⟩

def decideFidelity (configs : RequestConfigs F) (contextLen : ℕ) :
    Except (FidelityError F) FidelityDecision :=
  match explicitLevel py configs with
  | some level => .ok ⟨level, "force_".toList ++ level.value, "explicit_".toList ++ level.value⟩
  | none =>
      match levelOfValue (F := F) (.str config.defaultFidelity) with
      | some level => .ok ⟨level, "default_".toList ++ level.value, "config_default".toList⟩
      | none =>
          if config.defaultFidelity ≠ "auto".toList then
            .error (.unsupportedDefault config.defaultFidelity)
          else
            match decideStateStoreV0 py configs with
            | .error error => .error error
            | .ok (some decision) => .ok decision
            | .ok none => decideThresholds py config configs contextLen

def recordDecision (decision : FidelityDecision) : RequestConfigs F :=
  (((configs.set fidelityKey (.str decision.level.value)).set policyKey
    (.str decision.policy)).set reasonKey (.str decision.reason)).set
      (Utils.tagPrefix ++ fidelityTag) (.str decision.level.value)

def normalizeRequestConfigs (configs : Option (RequestConfigs F)) (contextLen : ℕ) :
    Except (FidelityError F) (Option (RequestConfigs F) × Option FidelityDecision) :=
  if config.enableFidelityCache then
    match decideFidelity py config (configs.getD Dict.empty) contextLen with
    | .error error => .error error
    | .ok decision =>
        .ok (some (recordDecision (configs.getD Dict.empty) decision), some decision)
  else .ok (configs, none)

def requestConfigsForLevel (configs : Option (RequestConfigs F)) (level : FidelityLevel) :
    RequestConfigs F :=
  ((configs.getD Dict.empty).set fidelityKey (.str level.value)).set
    (Utils.tagPrefix ++ fidelityTag) (.str level.value)

end Policy

end Fidelity

end LMCache
