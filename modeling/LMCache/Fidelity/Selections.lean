import LMCache.Fidelity.EngineKeys
import LMCache.Utils.KeyStrings

namespace LMCache.Fidelity

open Numeral Text Utils Dict ChunkedTokenDatabase

section Tags

variable {V : Type} {configs : Dict (List Char) V} {v : V} {key : List Char}

theorem itemTags_set_of_none (h : tagName key = none) :
    itemTags (configs.set key v).items = itemTags configs.items := by
  obtain ⟨items, hnodup⟩ := configs
  change itemTags (assign key v items) = itemTags items
  clear hnodup
  induction items with
  | nil => simp [assign, itemTags, h]
  | cons item items ih =>
    obtain ⟨key', v'⟩ := item
    rw [assign]
    split
    · next heq =>
      subst heq
      simp [itemTags, h]
    · rw [itemTags, itemTags, List.filterMap_cons, List.filterMap_cons]
      rw [itemTags, itemTags] at ih
      rw [ih]

theorem itemTags_set_of_some {key name : List Char} (h : tagName key = some name) :
    itemTags (configs.set key v).items = assign name v (itemTags configs.items) := by
  obtain ⟨items, hnodup⟩ := configs
  change itemTags (assign key v items) = assign name v (itemTags items)
  clear hnodup
  induction items with
  | nil => simp [assign, itemTags, h]
  | cons item items ih =>
    obtain ⟨key', v'⟩ := item
    rw [assign]
    split
    · next heq =>
      subst heq
      simp [itemTags, h, assign]
    · next hne =>
      rw [itemTags, itemTags] at ih ⊢
      rw [List.filterMap_cons, List.filterMap_cons, ih]
      cases htag : tagName key' with
      | none => rfl
      | some name' =>
        have hname : name' ≠ name := fun heq => hne (tagName_inj htag (heq ▸ h))
        simp [assign, hname]

def tagDict (configs : Dict (List Char) V) : Dict (List Char) V :=
  ⟨itemTags configs.items, nodup_map_fst_itemTags configs⟩

theorem mem_itemTags {items : List (List Char × V)} {name : List Char} :
    (name, v) ∈ itemTags items ↔ (tagPrefix ++ name, v) ∈ items := by
  rw [itemTags, List.mem_filterMap]
  constructor
  · rintro ⟨⟨key, v'⟩, hmem, htag⟩
    obtain ⟨name', hname, heq⟩ := Option.map_eq_some_iff.mp htag
    obtain ⟨rfl, rfl⟩ := Prod.mk.inj heq
    dsimp only at hname hmem
    rw [tagName, Option.ite_none_right_eq_some] at hname
    obtain ⟨rest, rfl⟩ := List.isPrefixOf_iff_prefix.mp hname.1
    have hrest : rest = name' := by simpa using hname.2
    rw [← hrest]
    exact hmem
  · intro hmem
    refine ⟨_, hmem, ?_⟩
    rw [tagName_tagPrefix_append]
    rfl

theorem get?_tagDict (configs : Dict (List Char) V) (name : List Char) :
    (tagDict configs).get? name = configs.get? (tagPrefix ++ name) := by
  ext v
  rw [get?_eq_some_iff, get?_eq_some_iff]
  exact mem_itemTags

theorem tagDict_set_of_none (h : tagName key = none) :
    tagDict (configs.set key v) = tagDict configs :=
  eq_of_items (itemTags_set_of_none h)

theorem tagDict_set_tag (configs : Dict (List Char) V) (name : List Char) (v : V) :
    tagDict (configs.set (tagPrefix ++ name) v) = (tagDict configs).set name v :=
  eq_of_items (itemTags_set_of_some (tagName_tagPrefix_append name))

theorem set_tagDict_eq_iff {configs configs' : Dict (List Char) V}
    (h : ∀ key, configs.get? key = configs'.get? key) (name : List Char) (v : V) :
    (tagDict configs).set name v = (tagDict configs').set name v ↔
      (tagDict configs).keys = (tagDict configs').keys := by
  have hget : ∀ name, (tagDict configs).get? name = (tagDict configs').get? name := fun name => by
    rw [get?_tagDict, get?_tagDict, h]
  have hmem : name ∈ (tagDict configs).keys ↔ name ∈ (tagDict configs').keys := by
    rw [Dict.mem_keys_iff, Dict.mem_keys_iff, hget]
  constructor
  · intro heq
    have hkeys := congrArg Dict.keys heq
    simp only [Dict.keys, Dict.set, Dict.map_fst_assign] at hkeys hmem ⊢
    split at hkeys
    · next hin => rwa [if_pos (hmem.mp hin)] at hkeys
    · next hout =>
      rw [if_neg fun hin => hout (hmem.mpr hin)] at hkeys
      exact List.append_cancel_right hkeys
  · intro hkeys
    rw [Dict.eq_of_get? hkeys hget]

end Tags

section Decisions

variable {F E : Type} {py : Builtins F} {configs configs' : RequestConfigs F}

theorem get_congr (h : ∀ key, configs.get? key = configs'.get? key) (key : List Char) :
    get configs key = get configs' key := by
  rw [get, get, h]

theorem explicitLevel_congr (h : ∀ key, configs.get? key = configs'.get? key) :
    explicitLevel py configs = explicitLevel py configs' := by
  simp only [explicitLevel, get_congr h]

theorem rawState_congr (h : ∀ key, configs.get? key = configs'.get? key) :
    rawState configs = rawState configs' := by
  simp only [rawState, get_congr h]

theorem decideThresholds_congr (h : ∀ key, configs.get? key = configs'.get? key)
    (config : FidelityConfig F) (contextLen : ℕ) :
    decideThresholds py config configs contextLen =
      decideThresholds py config configs' contextLen := by
  simp only [decideThresholds, recentKvStallMs, h]

theorem decideFidelity_congr (h : ∀ key, configs.get? key = configs'.get? key)
    (config : FidelityConfig F) (contextLen : ℕ) :
    decideFidelity py config configs contextLen = decideFidelity py config configs' contextLen := by
  simp only [decideFidelity, decideStateStoreV0, explicitLevel_congr h, rawState_congr h,
    decideThresholds_congr h]

theorem internalStatePrefixId_congr (h : ∀ key, configs.get? key = configs'.get? key)
    (tokens : Option (List ℕ)) (hashes : Option (List ℤ)) (offsets : Option (List ℕ)) :
    internalStatePrefixId py configs tokens hashes offsets =
      internalStatePrefixId py configs' tokens hashes offsets := by
  simp only [internalStatePrefixId, get_congr h]

theorem asksState_congr (h : ∀ key, configs.get? key = configs'.get? key)
    (engine : FidelityEngine F E) :
    engine.asksState py configs = engine.asksState py configs' := by
  simp only [FidelityEngine.asksState, explicitLevel_congr h, get_congr h, contains, h]

theorem tagDict_recordDecision (configs : RequestConfigs F) (decision : FidelityDecision) :
    tagDict (recordDecision configs decision) =
      (tagDict configs).set fidelityTag (.str decision.level.value) := by
  rw [recordDecision, tagDict_set_tag, tagDict_set_of_none (by decide),
    tagDict_set_of_none (by decide), tagDict_set_of_none (by decide)]

theorem explicitLevel_recordDecision (configs : RequestConfigs F) (decision : FidelityDecision) :
    explicitLevel py (recordDecision configs decision) = some decision.level := by
  have hget : get (recordDecision configs decision) fidelityKey =
      .str decision.level.value := by
    rw [get, recordDecision, get?_set_ne _ _ (by decide), get?_set_ne _ _ (by decide),
      get?_set_ne _ _ (by decide), get?_set_self]
    rfl
  rw [explicitLevel, hget]
  cases decision.level with
  | full => rfl
  | base => rfl

end Decisions

def SameConfigs {F : Type} (configs configs' : Option (RequestConfigs F)) : Prop :=
  ∀ key, (configs.getD empty).get? key = (configs'.getD empty).get? key

def CacheRequest.segments {E K : Type} (db : ChunkedTokenDatabase ℤ E) (emit : ℤ → K) :
    CacheRequest → List (ℕ × ℕ × K)
  | tokens ts => db.tokenSegments emit ts 0
  | hashes hs offs => hashSegments emit 0 (hs.zip offs)

theorem CacheRequest.segments_eq_map {E K : Type} (db : ChunkedTokenDatabase ℤ E) (emit : ℤ → K)
    (request : CacheRequest) :
    request.segments db emit =
      (request.segments db id).map fun segment => (segment.1, segment.2.1, emit segment.2.2) := by
  cases request with
  | tokens ts => exact db.tokenSegments_eq_map emit ts 0
  | hashes hs offs => exact hashSegments_eq_map emit 0 (hs.zip offs)

namespace FidelityEngine

variable {F E : Type} (py : Builtins F) (engine : FidelityEngine F E)
  (configs : Option (RequestConfigs F))

def applied (tokens : Option (List ℕ)) (hashes : Option (List ℤ)) (offsets : Option (List ℕ)) :
    RequestConfigs F :=
  (engine.maybeApplyInternalFidelityState py configs tokens hashes offsets).getD empty

def decision (tokens : Option (List ℕ)) (hashes : Option (List ℤ)) (offsets : Option (List ℕ)) :
    Except (FidelityError F) FidelityDecision :=
  decideFidelity py engine.config (engine.applied py configs tokens hashes offsets)
    (contextLen tokens offsets)

def levelKey (level : FidelityLevel) (chunkHash : ℤ) : EngineKey F :=
  ⟨engine.metadata.modelName, engine.metadata.worldSize, engine.metadata.workerId, chunkHash,
    engine.metadata.kvDtype,
    some ((tagDict (configs.getD empty)).set fidelityTag (.str level.value)).items⟩

def selection (request : CacheRequest) (configs : Option (RequestConfigs F))
    (hashes : Option (List ℤ)) : Except (EngineError F) (Selection F) :=
  match engine.decision py configs request.tokens? hashes request.offsets? with
  | .error error => .error (.fidelity error)
  | .ok decision =>
      .ok (some decision.level,
        request.segments engine.tokenDatabase (engine.levelKey configs decision.level))

variable {py} {engine}

theorem applied_congr {configs configs' : Option (RequestConfigs F)}
    (h : SameConfigs configs configs') (tokens : Option (List ℕ)) (hashes : Option (List ℤ))
    (offsets : Option (List ℕ)) (key : List Char) :
    (engine.applied py configs tokens hashes offsets).get? key =
      (engine.applied py configs' tokens hashes offsets).get? key := by
  simp only [applied, maybeApplyInternalFidelityState, asksState_congr h,
    internalStatePrefixId_congr h]
  split
  · split
    · exact h key
    · simp only [Option.getD_some, get?_set, h key]
  · exact h key

theorem tagDict_applied (tokens : Option (List ℕ)) (hashes : Option (List ℤ))
    (offsets : Option (List ℕ)) :
    tagDict (engine.applied py configs tokens hashes offsets) = tagDict (configs.getD empty) := by
  simp only [applied, maybeApplyInternalFidelityState]
  split
  · split
    · rfl
    · rw [Option.getD_some, tagDict_set_of_none (by decide), tagDict_set_of_none (by decide)]
  · rfl

theorem decision_congr {configs configs' : Option (RequestConfigs F)}
    (h : SameConfigs configs configs') (tokens : Option (List ℕ)) (hashes : Option (List ℤ))
    (offsets : Option (List ℕ)) :
    engine.decision py configs tokens hashes offsets =
      engine.decision py configs' tokens hashes offsets :=
  decideFidelity_congr (applied_congr h tokens hashes offsets) _ _

theorem normalizeConfigs_eq (hcache : engine.config.enableFidelityCache = true)
    (configs : Option (RequestConfigs F)) (tokens : Option (List ℕ)) (hashes : Option (List ℤ))
    (offsets : Option (List ℕ)) :
    engine.normalizeConfigs py configs tokens hashes offsets =
      (engine.decision py configs tokens hashes offsets).map fun decision =>
        (some (recordDecision (engine.applied py configs tokens hashes offsets) decision),
          some decision.level) := by
  rw [normalizeConfigs, normalizeRequestConfigs, if_pos hcache, decision, applied]
  cases decideFidelity py engine.config
    ((engine.maybeApplyInternalFidelityState py configs tokens hashes offsets).getD empty)
    (contextLen tokens offsets) with
  | error error => rfl
  | ok decision => rfl

theorem makeKeyByHash_eq {normalized : RequestConfigs F} (level : FidelityLevel)
    (htags : tagDict normalized =
      (tagDict (configs.getD empty)).set fidelityTag (.str level.value)) :
    engine.makeKeyByHash (some normalized) = engine.levelKey configs level := by
  have hitems : itemTags normalized.items =
      ((tagDict (configs.getD empty)).set fidelityTag (.str level.value)).items :=
    congrArg items htags
  have hmem : (fidelityTag, ConfigValue.str level.value) ∈ itemTags normalized.items := by
    rw [hitems, ← get?_eq_some_iff, get?_set_self]
  funext chunkHash
  rw [makeKeyByHash, levelKey, ← hitems, tagsOf]
  split
  · next hnil =>
    rw [hnil] at hmem
    cases hmem
  · next heq => rw [heq]

theorem processTokens_request (engine : FidelityEngine F E) (configs : Option (RequestConfigs F))
    (request : CacheRequest) :
    engine.processTokens configs request.tokens? request.hashes? request.offsets? none =
      .ok (request.segments engine.tokenDatabase (engine.makeKeyByHash configs)) := by
  have hfree : ChunkedTokenDatabase.numFalses none % engine.tokenDatabase.chunkSize = 0 :=
    Nat.zero_mod _
  cases request with
  | tokens ts =>
    simp only [processTokens, ChunkedTokenDatabase.processTokens, CacheRequest.tokens?, hfree]
    rfl
  | hashes hs offs =>
    simp only [processTokens, ChunkedTokenDatabase.processTokens, CacheRequest.tokens?,
      CacheRequest.hashes?, CacheRequest.offsets?, hfree]
    rfl

theorem selection_of_normalizeConfigs (hcache : engine.config.enableFidelityCache = true)
    (request : CacheRequest) (configs : Option (RequestConfigs F)) (hashes : Option (List ℤ)) :
    (do
      let (configs, level) ← (engine.normalizeConfigs py configs request.tokens? hashes
        request.offsets?).mapError EngineError.fidelity
      let segments ← engine.processTokens configs request.tokens? request.hashes?
        request.offsets? none
      return (level, segments)) = engine.selection py request configs hashes := by
  rw [normalizeConfigs_eq hcache, selection]
  cases engine.decision py configs request.tokens? hashes request.offsets? with
  | error error => rfl
  | ok decision =>
    simp only [Except.map, Except.mapError, bind, Except.bind, processTokens_request]
    rw [makeKeyByHash_eq configs decision.level]
    · rfl
    · rw [tagDict_recordDecision, tagDict_applied]

end FidelityEngine

end LMCache.Fidelity
