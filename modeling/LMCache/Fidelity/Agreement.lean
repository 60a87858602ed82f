import LMCache.Fidelity.Selections

namespace LMCache.Fidelity

open Numeral Text Dict FidelityDecision CacheRequest PinState Option

namespace FidelityEngine

variable {F E : Type} {py : Builtins F} {engine : FidelityEngine F E}

theorem storeSelection_eq (hcache : engine.config.enableFidelityCache = true)
    (request : CacheRequest) (configs : Option (RequestConfigs F)) :
    engine.storeSelection py request configs none =
      engine.selection py request configs request.hashes? :=
  selection_of_normalizeConfigs hcache request configs request.hashes?

theorem lookupSelection_eq (hcache : engine.config.enableFidelityCache = true)
    (request : CacheRequest) (configs : Option (RequestConfigs F)) :
    engine.lookupSelection py request configs = engine.selection py request configs none :=
  selection_of_normalizeConfigs hcache request configs none

theorem applied_recordDecision (configs : RequestConfigs F) (decision : FidelityDecision)
    (tokens : Option (List ℕ)) (hashes : Option (List ℤ)) (offsets : Option (List ℕ)) :
    engine.applied py (some (recordDecision configs decision)) tokens hashes offsets =
      recordDecision configs decision := by
  have hasks : engine.asksState py (recordDecision configs decision) = false := by
    simp only [asksState, explicitLevel_recordDecision, isNone_some, Bool.and_false, Bool.false_and]
  simp only [applied, maybeApplyInternalFidelityState, getD_some, hasks,
    Bool.false_eq_true, if_false]

theorem decideFidelity_recordDecision (py : Builtins F) (config : FidelityConfig F)
    (configs : RequestConfigs F) (decision : FidelityDecision) (contextLen : ℕ) :
    ∃ decision', decideFidelity py config (recordDecision configs decision) contextLen =
      .ok decision' ∧ decision'.level = decision.level := by
  rw [decideFidelity, explicitLevel_recordDecision]
  exact ⟨_, rfl, rfl⟩

theorem retrieveSelection_eq (hcache : engine.config.enableFidelityCache = true)
    (ts : List ℕ) (configs : Option (RequestConfigs F)) :
    engine.retrieveSelection py ts configs none =
      (engine.selection py (.tokens ts) configs none).map fun sel => (sel.1, sel) := by
  rw [retrieveSelection, normalizeConfigs_eq hcache, selection]
  simp only [tokens?, offsets?]
  cases hdecision : engine.decision py configs (some ts) none none with
  | error error => rfl
  | ok decision =>
    obtain ⟨decision', hdecide, hlevel⟩ := decideFidelity_recordDecision py engine.config
      (engine.applied py configs (some ts) none none) decision (contextLen (some ts) none)
    have htags : tagDict (recordDecision
        (recordDecision (engine.applied py configs (some ts) none none) decision) decision') =
        (tagDict (configs.getD empty)).set fidelityTag (.str decision.level.value) := by
      rw [tagDict_recordDecision, tagDict_recordDecision, tagDict_applied, hlevel]
      exact eq_of_items (assign_assign _ _ _ _)
    have hprocess := processTokens_request engine (some (recordDecision
      (recordDecision (engine.applied py configs (some ts) none none) decision) decision'))
      (.tokens ts)
    rw [makeKeyByHash_eq configs decision.level htags] at hprocess
    simp only [tokens?, offsets?, hashes?] at hprocess
    simp only [Except.map, Except.mapError, bind, Except.bind, normalizeConfigs_eq hcache,
      FidelityEngine.decision, applied_recordDecision, hdecide, hprocess, hlevel]
    rfl

theorem segments_levelKey_eq_iff {configs configs' : Option (RequestConfigs F)}
    (h : SameConfigs configs configs') (request : CacheRequest) (level : FidelityLevel) :
    request.segments engine.tokenDatabase (engine.levelKey configs' level) =
        request.segments engine.tokenDatabase (engine.levelKey configs level) ↔
      (request.segments engine.tokenDatabase id ≠ [] →
        (tagDict (configs'.getD empty)).keys = (tagDict (configs.getD empty)).keys) := by
  have htags := set_tagDict_eq_iff (fun key => (h key).symm) fidelityTag
    (ConfigValue.str (F := F) level.value)
  rw [request.segments_eq_map _ (engine.levelKey configs' level),
    request.segments_eq_map _ (engine.levelKey configs level)]
  cases hsegments : request.segments engine.tokenDatabase id with
  | nil => simp
  | cons segment segments =>
    constructor
    · intro heq _
      have hkey := (List.cons.inj heq).1
      simp only [levelKey, Prod.mk.injEq, true_and, EngineKey.mk.injEq, some.injEq] at hkey
      exact htags.mp (eq_of_items hkey)
    · intro hkeys
      have hdict := htags.mpr (hkeys (List.cons_ne_nil _ _))
      have hkey : engine.levelKey configs' level = engine.levelKey configs level := by
        funext chunkHash
        rw [levelKey, levelKey, hdict]
      rw [hkey]

theorem selection_eq_iff {configs configs' : Option (RequestConfigs F)}
    (h : SameConfigs configs configs') (request : CacheRequest) (hashes hashes' : Option (List ℤ)) :
    engine.selection py request configs' hashes' = engine.selection py request configs hashes ↔
      (engine.decision py configs' request.tokens? hashes' request.offsets?).map level =
        (engine.decision py configs request.tokens? hashes request.offsets?).map level ∧
      (∀ decision, engine.decision py configs request.tokens? hashes request.offsets? =
          .ok decision → request.segments engine.tokenDatabase id ≠ [] →
        (tagDict (configs'.getD empty)).keys = (tagDict (configs.getD empty)).keys) := by
  rw [selection, selection]
  cases engine.decision py configs request.tokens? hashes request.offsets? with
  | error error =>
    cases engine.decision py configs' request.tokens? hashes' request.offsets? with
    | error error' => simp [Except.map]
    | ok decision' => simp [Except.map]
  | ok decision =>
    cases engine.decision py configs' request.tokens? hashes' request.offsets? with
    | error error' => simp [Except.map]
    | ok decision' =>
      simp only [Except.map, Except.ok.injEq, Prod.mk.injEq, some.injEq, forall_eq']
      refine and_congr_right fun hlevel => ?_
      rw [hlevel]
      exact segments_levelKey_eq_iff h request decision.level

def stateLevel : FidelityState → FidelityLevel
  | .fullReady => .full
  | .promoting => .base
  | .baseReady => .base
  | .fullEvicted => .full
  | .miss => .base

variable {configs : RequestConfigs F}

theorem default_of_asksState (hasks : engine.asksState py configs = true) :
    explicitLevel py configs = none ∧ engine.config.defaultFidelity = "auto".toList ∧
      rawState configs = .none := by
  simp only [asksState, Bool.and_eq_true, beq_iff_eq, isNone_iff_eq_none,
    Bool.not_eq_true'] at hasks
  obtain ⟨⟨⟨⟨_, hdefault⟩, hexplicit⟩, hstate⟩, hprefix⟩ := hasks
  refine ⟨hexplicit, hdefault, ?_⟩
  rw [contains, isSome_eq_false_iff, isNone_iff_eq_none] at hstate
  rw [rawState, get, hstate, getD_none]
  dsimp only
  split at hprefix
  · assumption
  · cases hprefix

theorem decideFidelity_of_auto {config : FidelityConfig F} {configs : RequestConfigs F}
    (hexplicit : explicitLevel py configs = none)
    (hdefault : config.defaultFidelity = "auto".toList) (contextLen : ℕ) :
    decideFidelity py config configs contextLen =
      match decideStateStoreV0 py configs with
      | .error error => .error error
      | .ok (some decision) => .ok decision
      | .ok none => decideThresholds py config configs contextLen := by
  have hauto : levelOfValue (F := F) (.str "auto".toList) = none := rfl
  rw [decideFidelity, hexplicit, hdefault]
  dsimp only
  rw [hauto]
  exact if_neg (not_not.mpr rfl)

theorem decideFidelity_of_asksState (hasks : engine.asksState py configs = true) (contextLen : ℕ) :
    decideFidelity py engine.config configs contextLen =
      decideThresholds py engine.config configs contextLen := by
  obtain ⟨hexplicit, hdefault, hraw⟩ := default_of_asksState hasks
  rw [decideFidelity_of_auto hexplicit hdefault, decideStateStoreV0, hraw]

theorem upper_value (state : FidelityState) : py.upper (strip state.value) = state.value := by
  have hstrip : strip state.value = state.value := by
    cases state <;> rfl
  have hupper : (state.value.all fun c => c.isUpper || c == '_') = true := by
    cases state <;> rfl
  rw [hstrip]
  refine py.upper_eq _ fun c hc => ?_
  have hchar := List.all_eq_true.mp hupper c hc
  rw [Bool.or_eq_true, beq_iff_eq] at hchar
  exact hchar

theorem decideFidelity_of_state (hasks : engine.asksState py configs = true)
    (state : FidelityState) (prefixId : List Char) (contextLen : ℕ) :
    (decideFidelity py engine.config
      ((configs.set stateKey (.str state.value)).set prefixIdKey (.str prefixId)) contextLen).map
        level = .ok (stateLevel state) := by
  obtain ⟨hexplicit, hdefault, _⟩ := default_of_asksState hasks
  have hexplicit' : explicitLevel py
      ((configs.set stateKey (.str state.value)).set prefixIdKey (.str prefixId)) = none := by
    rw [← hexplicit, explicitLevel, explicitLevel, get, get, get, get,
      get?_set_ne _ _ (by decide), get?_set_ne _ _ (by decide),
      get?_set_ne _ _ (by decide), get?_set_ne _ _ (by decide)]
  have hraw : rawState
      ((configs.set stateKey (.str state.value)).set prefixIdKey (.str prefixId)) =
        .str state.value := by
    rw [rawState, get, get?_set_ne _ _ (by decide), get?_set_self]
    rfl
  rw [decideFidelity_of_auto hexplicit' hdefault, decideStateStoreV0, hraw]
  simp only [Builtins.str, upper_value]
  cases state with
  | miss => rfl
  | baseReady => rfl
  | promoting => rfl
  | fullReady => rfl
  | fullEvicted => rfl

def HashLevelAgrees (py : Builtins F) (engine : FidelityEngine F E) (request : CacheRequest)
    (configs : Option (RequestConfigs F)) : Prop :=
  match request with
  | .tokens _ => True
  | .hashes hs offs =>
      engine.asksState py (configs.getD empty) = true →
        py.truthy (get (configs.getD empty) prefixIdKey) = false →
          (decideThresholds py engine.config (configs.getD empty) offs.sum).map level =
            .ok (stateLevel (engine.states.get (py.digest (hashesPayload hs (some offs)))))

theorem decision_hashes_eq_iff (hs : List ℤ) (offs : List ℕ)
    (configs : Option (RequestConfigs F)) :
    (engine.decision py configs none none (some offs)).map level =
        (engine.decision py configs none (some hs) (some offs)).map level ↔
      HashLevelAgrees py engine (.hashes hs offs) configs := by
  rw [HashLevelAgrees]
  cases hasks : engine.asksState py (configs.getD empty) with
  | false =>
    simp [decision, applied, maybeApplyInternalFidelityState, hasks]
  | true =>
    cases htruthy : py.truthy (get (configs.getD empty) prefixIdKey) with
    | true =>
      simp [decision, applied, maybeApplyInternalFidelityState, hasks, internalStatePrefixId,
        htruthy]
    | false =>
      simp only [decision, applied, maybeApplyInternalFidelityState, hasks, internalStatePrefixId,
        htruthy, if_true, Bool.false_eq_true, if_false, getD_some,
        decideFidelity_of_state hasks, decideFidelity_of_asksState hasks, contextLen,
        forall_const]

def TagsAligned (py : Builtins F) (engine : FidelityEngine F E) (request : CacheRequest)
    (configs configs' : Option (RequestConfigs F)) : Prop :=
  ∀ decision, engine.decision py configs request.tokens? request.hashes? request.offsets? =
      .ok decision → request.segments engine.tokenDatabase id ≠ [] →
    (tagDict (configs'.getD empty)).keys = (tagDict (configs.getD empty)).keys

theorem lookupSelection_eq_iff (hcache : engine.config.enableFidelityCache = true)
    {configs configs' : Option (RequestConfigs F)} (h : SameConfigs configs configs')
    (request : CacheRequest) :
    engine.lookupSelection py request configs' = engine.storeSelection py request configs none ↔
      HashLevelAgrees py engine request configs ∧
        TagsAligned py engine request configs configs' := by
  rw [storeSelection_eq hcache, lookupSelection_eq hcache, selection_eq_iff h]
  refine and_congr_left fun _ => ?_
  cases request with
  | tokens ts =>
    rw [decision_congr h]
    exact iff_of_true rfl trivial
  | hashes hs offs =>
    rw [← decision_congr h]
    exact decision_hashes_eq_iff hs offs configs

theorem retrieveSelection_eq_iff (hcache : engine.config.enableFidelityCache = true)
    {configs configs' : Option (RequestConfigs F)} (h : SameConfigs configs configs')
    (ts : List ℕ) :
    engine.retrieveSelection py ts configs' none =
        (engine.storeSelection py (.tokens ts) configs none).map (fun sel => (sel.1, sel)) ↔
      TagsAligned py engine (.tokens ts) configs configs' := by
  have hsame : engine.selection py (.tokens ts) configs' none =
      engine.selection py (.tokens ts) configs none ↔
        TagsAligned py engine (.tokens ts) configs configs' := by
    rw [selection_eq_iff h]
    refine and_iff_right ?_
    rw [decision_congr h]
  rw [storeSelection_eq hcache, retrieveSelection_eq hcache, ← hsame]
  constructor
  · intro heq
    simp only [hashes?] at heq
    cases hleft : engine.selection py (.tokens ts) configs' none with
    | error error =>
      cases hright : engine.selection py (.tokens ts) configs none with
      | error error' =>
        rw [hleft, hright] at heq
        exact congrArg _ (Except.error.inj heq)
      | ok sel =>
        rw [hleft, hright] at heq
        cases heq
    | ok sel =>
      cases hright : engine.selection py (.tokens ts) configs none with
      | error error' =>
        rw [hleft, hright] at heq
        cases heq
      | ok sel' =>
        rw [hleft, hright] at heq
        exact congrArg _ (Prod.mk.inj (Except.ok.inj heq)).2
  · intro heq
    rw [heq]
    rfl

end FidelityEngine

section Lookup

variable {K : Type}

theorem hitChunks_mapKeys_nil (st : PinState K) (backends : List (String × PinMode))
    (total hits : ℕ) : hitChunks (st.mapKeys total backends [] hits) = 0 := by
  induction backends with
  | nil => rfl
  | cons backend backends ih => exact ih

theorem hitChunks_cons (backendName : String) (keys : List K) (rest : List (String × List K)) :
    hitChunks ((backendName, keys) :: rest) = keys.length + hitChunks rest := by
  rw [hitChunks, List.map_cons, List.sum_cons]
  rfl

variable {location : String} {st : PinState K} {mode : PinMode}

theorem hitChunks_mapKeys {backends : List (String × PinMode)} (hmem : (location, mode) ∈ backends)
    (keys : List K) (hpresent : ∀ key ∈ keys, st.present location key = true) {total hits : ℕ}
    (htotal : hits + keys.length = total) :
    hitChunks (st.mapKeys total backends keys hits) = keys.length := by
  induction backends generalizing keys hits with
  | nil => cases hmem
  | cons backend backends ih =>
    obtain ⟨backendName, mode'⟩ := backend
    have hle : (keys.takeWhile (st.present backendName)).length ≤ keys.length :=
      (List.takeWhile_sublist _).length_le
    have hhead : (location, mode) = (backendName, mode') →
        (keys.takeWhile (st.present backendName)).length = keys.length := by
      intro heq
      rw [(Prod.mk.inj heq).1] at hpresent
      rw [List.takeWhile_eq_self_iff.mpr hpresent]
    simp only [mapKeys]
    split
    · next hzero =>
      rcases List.mem_cons.mp hmem with heq | htail
      · have hnil : keys = [] := List.length_eq_zero_iff.mp ((hhead heq).symm.trans hzero)
        rw [hnil, hitChunks_mapKeys_nil]
        rfl
      · exact ih htail keys hpresent htotal
    · rw [hitChunks_cons, List.length_take, Nat.min_eq_left hle]
      split
      · have hnil : hitChunks ([] : List (String × List K)) = 0 := rfl
        omega
      · next hmore =>
        rcases List.mem_cons.mp hmem with heq | htail
        · exact absurd (by rw [hhead heq]; exact htotal) hmore
        · rw [ih htail (keys.drop _) (fun key hkey => hpresent key (List.mem_of_mem_drop hkey)),
            List.length_drop]
          · omega
          · rw [List.length_drop]
            omega

theorem lookupChunks_eq [DecidableEq K] {searchRange : Option (List String)}
    (hactive : (location, mode) ∈ st.table.getActiveStorageBackends none searchRange)
    {segments : List (ℕ × ℕ × K)}
    (hpresent : ∀ segment ∈ segments, st.present location segment.2.2 = true) (lookupId : String)
    (pin : Bool) :
    (LookupConfig.lookupChunks lookupId searchRange pin segments st).1 =
      (segments.getLast?.map fun segment => segment.2.1).getD 0 := by
  have hkeys : ∀ key ∈ segments.map fun segment => segment.2.2, st.present location key = true := by
    intro key hkey
    obtain ⟨segment, hsegment, rfl⟩ := List.mem_map.mp hkey
    exact hpresent segment hsegment
  have hhits := hitChunks_mapKeys hactive _ hkeys
    (Nat.zero_add (segments.map fun segment => segment.2.2).length)
  simp only [LookupConfig.lookupChunks, blockMapping]
  rw [hhits, List.length_map, List.take_length]

end Lookup

namespace FidelityEngine

variable {F E : Type} [DecidableEq F] {py : Builtins F} {engine : FidelityEngine F E}

structure SelectionsAgree (py : Builtins F) (engine : FidelityEngine F E) (request : CacheRequest)
    (configs configs' configs'' : Option (RequestConfigs F)) : Prop where
  lookup : engine.lookupSelection py request configs' = engine.storeSelection py request configs none
  retrieve : ∀ ts, request = .tokens ts → engine.retrieveSelection py ts configs'' none =
    (engine.storeSelection py request configs none).map fun sel => (sel.1, sel)
  found : ∀ stored sought, engine.storeSelection py request configs none = .ok stored →
    engine.lookupSelection py request configs' = .ok sought →
    ∀ (st : PinState (EngineKey F)) (searchRange : Option (List String)) (location : String)
      (mode : PinMode), (location, mode) ∈ st.table.getActiveStorageBackends none searchRange →
    (∀ segment ∈ stored.2, st.present location segment.2.2 = true) → ∀ lookupId pin,
      (LookupConfig.lookupChunks lookupId searchRange pin sought.2 st).1 =
        (stored.2.getLast?.map fun segment => segment.2.1).getD 0

theorem selectionsAgree_iff (hcache : engine.config.enableFidelityCache = true)
    (request : CacheRequest) {configs configs' configs'' : Option (RequestConfigs F)}
    (h' : SameConfigs configs configs') (h'' : SameConfigs configs configs'') :
    SelectionsAgree py engine request configs configs' configs'' ↔
      HashLevelAgrees py engine request configs ∧
        TagsAligned py engine request configs configs' ∧
          ∀ ts, request = .tokens ts → TagsAligned py engine request configs configs'' := by
  constructor
  · intro h
    obtain ⟨hlevel, htags⟩ := (lookupSelection_eq_iff hcache h' request).mp h.lookup
    refine ⟨hlevel, htags, ?_⟩
    rintro ts rfl
    exact (retrieveSelection_eq_iff hcache h'' ts).mp (h.retrieve ts rfl)
  · rintro ⟨hlevel, htags', htags''⟩
    have hlookup := (lookupSelection_eq_iff hcache h' request).mpr ⟨hlevel, htags'⟩
    refine ⟨hlookup, ?_, ?_⟩
    · rintro ts rfl
      exact (retrieveSelection_eq_iff hcache h'' ts).mpr (htags'' ts rfl)
    · intro stored sought hstored hsought st searchRange location mode hactive hpresent lookupId pin
      rw [hlookup, hstored] at hsought
      obtain rfl := Except.ok.inj hsought
      exact lookupChunks_eq hactive hpresent lookupId pin

def hashesDigest (payload : List Char) : List Char :=
  if payload = "hashes:11,22|offsets:4,4".toList then "6dba5c07f25080a9".toList else payload.take 16

theorem toUpper_of_isUpper {c : Char} (h : c.isUpper = true ∨ c = '_') : c.toUpper = c := by
  rcases h with h | rfl
  · have hupper := of_decide_eq_true h
    refine dif_neg ?_
    rintro ⟨hlow, _⟩
    exact absurd (UInt32.le_trans hlow hupper.2) (by decide)
  · rfl

def wholeNumbers : Builtins ℤ where
  zero := 0
  isZero := fun n => n == 0
  le := fun m n => decide (m ≤ n)
  ofInt := some
  ofStr := fun _ => none
  toStr := formatInt 10
  upper := List.map Char.toUpper
  digest := hashesDigest
  upper_eq := fun _ h =>
    (List.map_congr_left fun c hc => toUpper_of_isUpper (h c hc)).trans (List.map_id _)

def autoEngine : FidelityEngine ℤ Unit where
  config := ⟨true, "auto".toList, 16384, 200, true⟩
  metadata := ⟨['m'], 1, 0, .bfloat16⟩
  tokenDatabase := ⟨4, true, 0, fun input => 31 * input.1 + input.2.1.sum, by decide⟩
  states := FidelityStateStore.empty

def userConfigs : RequestConfigs ℤ :=
  (empty.set (Utils.tagPrefix ++ ['u']) (.str ['a'])).set ['x'] (.int 1)

def userConfigsSwapped : RequestConfigs ℤ :=
  (empty.set ['x'] (.int 1)).set (Utils.tagPrefix ++ ['u']) (.str ['a'])

theorem selectionsAgree_iff_userConfigs :
    SelectionsAgree wholeNumbers autoEngine (.tokens [1, 2, 3, 4, 5]) (some userConfigs)
      (some userConfigsSwapped) (some userConfigs) := by
  refine (selectionsAgree_iff rfl _ ?_ fun _ => rfl).mpr ⟨trivial, fun _ _ _ => by decide, ?_⟩
  · intro key
    simp only [getD_some, userConfigs, userConfigsSwapped, get?_set]
    split_ifs with hx hu
    · exact absurd (hx.trans hu.symm) (by decide)
    · rfl
    · rfl
    · rfl
  · exact fun _ _ _ _ _ => rfl

theorem not_selectionsAgree_hashes :
    ¬ SelectionsAgree wholeNumbers autoEngine (.hashes [11, 22] [4, 4]) none none none := by
  intro h
  have hlevels := congrArg (fun sel => sel.toOption.map Prod.fst) h.lookup
  revert hlevels
  decide

def twoTags : RequestConfigs ℤ :=
  (empty.set (Utils.tagPrefix ++ ['u']) (.str ['a'])).set (Utils.tagPrefix ++ ['v']) (.str ['b'])

def twoTagsSwapped : RequestConfigs ℤ :=
  (empty.set (Utils.tagPrefix ++ ['v']) (.str ['b'])).set (Utils.tagPrefix ++ ['u']) (.str ['a'])

theorem not_selectionsAgree_swappedTags :
    ¬ SelectionsAgree wholeNumbers autoEngine (.tokens [1, 2, 3, 4]) (some twoTags)
      (some twoTagsSwapped) (some twoTags) := by
  intro h
  have hkeys := congrArg (fun sel => sel.toOption.map Prod.snd) h.lookup
  revert hkeys
  decide

end FidelityEngine

end LMCache.Fidelity
