import LMCache.Fidelity.Agreement
import LMCache.Fidelity.VariantWrites

namespace LMCache.Fidelity.StoreEngine

open Numeral Text List CacheRequest Columns

section PutLayers

variable {F D ε : Type} {puts : ℕ → Except ε (List (StoreEvent (LayerEngineKey F) D))}
  {layerIds : List ℕ}

theorem putLayers_ok {events : ℕ → List (StoreEvent (LayerEngineKey F) D)}
    (h : ∀ layerId ∈ layerIds, puts layerId = .ok (events layerId)) :
    putLayers puts layerIds = (layerIds.flatMap events, none) := by
  induction layerIds with
  | nil => rfl
  | cons layerId layerIds ih =>
    rw [putLayers, h layerId mem_cons_self]
    dsimp only
    rw [ih fun l hl => h l (mem_cons_of_mem _ hl), flatMap_cons]

theorem putLayers_congr {puts' : ℕ → Except ε (List (StoreEvent (LayerEngineKey F) D))}
    (h : ∀ layerId ∈ layerIds, puts layerId = puts' layerId) :
    putLayers puts layerIds = putLayers puts' layerIds := by
  induction layerIds with
  | nil => rfl
  | cons layerId layerIds ih =>
    rw [putLayers, putLayers, h layerId mem_cons_self, ih fun l hl => h l (mem_cons_of_mem _ hl)]

theorem mem_putLayers {event : StoreEvent (LayerEngineKey F) D}
    (h : event ∈ (putLayers puts layerIds).1) :
    ∃ layerId ∈ layerIds, ∃ events, puts layerId = .ok events ∧ event ∈ events := by
  induction layerIds with
  | nil => cases h
  | cons layerId layerIds ih =>
    rw [putLayers] at h
    cases hputs : puts layerId with
    | error error =>
      rw [hputs] at h
      cases h
    | ok events =>
      rw [hputs] at h
      rcases mem_append.mp h with hhead | htail
      · exact ⟨layerId, mem_cons_self, events, hputs, hhead⟩
      · obtain ⟨l, hl, events', hputs', hmem⟩ := ih htail
        exact ⟨l, mem_cons_of_mem _ hl, events', hputs', hmem⟩

end PutLayers

section LayerChunks

variable {F E D : Type} {engine : StoreEngine F E}

def layerKey (layerId : ℕ) (key : EngineKey F) : LayerEngineKey F := ⟨key, layerId⟩

theorem splitLayers_head (key : EngineKey F) (n : ℕ) :
    (key.splitLayers (n + 1))[0]? = some ⟨key, 0⟩ := by
  rw [EngineKey.splitLayers, range_succ_eq_map]
  rfl

def absent (present : LayerEngineKey F → Bool) (baseKey : ℤ → EngineKey F)
    (segment : ℕ × ℕ × ℤ) : Bool :=
  !present ⟨baseKey segment.2.2, 0⟩

theorem allocateLayerChunks_of_zero (hlayers : engine.numLayers = 0)
    (keysBySpan : Option (Dict (ℕ × ℕ) (List (LayerEngineKey F))))
    (present : LayerEngineKey F → Bool) (allocated : ℕ → Bool) (i : ℕ)
    (segments : List (ℕ × ℕ × EngineKey F)) :
    ∃ error, engine.allocateLayerChunks keysBySpan present allocated i segments =
      (⟨[], []⟩, error) ∧ ∀ e ∈ error, e.isKeyMismatch = false := by
  cases segments with
  | nil => exact ⟨none, rfl, fun _ hmem => by cases hmem⟩
  | cons segment segments =>
    rw [allocateLayerChunks.eq_def, hlayers]
    refine ⟨some .indexError, rfl, fun e hmem => ?_⟩
    rw [← Option.mem_some.mp hmem]
    rfl

variable {stored : List (ℕ × ℕ × ℤ)}

theorem allocateLayerChunks_eq {n : ℕ} (hlayers : engine.numLayers = n + 1)
    {keysBySpan : Option (Dict (ℕ × ℕ) (List (LayerEngineKey F)))}
    {baseKey fullKey : ℤ → EngineKey F} {segments : List (ℕ × ℕ × ℤ)}
    (hkeys : ∀ d ∈ keysBySpan, ∀ segment ∈ segments, d.get? (segment.1, segment.2.1) =
      some ((fullKey segment.2.2).splitLayers engine.numLayers)) (present : LayerEngineKey F → Bool)
    (allocated : ℕ → Bool) (i : ℕ)
    (hstored : (segments.filter (absent present baseKey)).take (chunksAllocated allocated i
      (segments.filter (absent present baseKey)).length) = stored) :
    engine.allocateLayerChunks keysBySpan present allocated i (segments.map (keyed baseKey)) =
      (⟨stored.map (keyed baseKey), if keysBySpan.isSome then
        stored.map fun segment => (fullKey segment.2.2).splitLayers engine.numLayers
        else []⟩, none) := by
  induction segments generalizing i stored with
  | nil =>
    rw [← hstored]
    cases keysBySpan <;> rfl
  | cons segment segments ih =>
    have hrest := fun d hd segment' hsegment' =>
      hkeys d hd segment' (mem_cons_of_mem _ hsegment')
    rw [map_cons, allocateLayerChunks.eq_def, hlayers]
    dsimp only [keyed]
    rw [splitLayers_head, ← hlayers]
    dsimp only
    cases hpresent : present ⟨baseKey segment.2.2, 0⟩ with
    | true =>
      rw [if_pos rfl]
      apply ih hrest
      rw [← hstored, filter_cons_of_neg]
      rw [absent, hpresent]
      exact Bool.false_ne_true
    | false =>
      have habsent : absent present baseKey segment = true := by
        rw [absent, hpresent]
        rfl
      rw [filter_cons_of_pos habsent, length_cons, chunksAllocated] at hstored
      rw [if_neg Bool.false_ne_true]
      cases hallocated : allocated i with
      | true =>
        rw [hallocated, if_pos rfl, take_succ_cons] at hstored
        rw [if_pos rfl, ← hstored]
        have hnext := ih hrest (i + 1) rfl
        cases keysBySpan with
        | none =>
          dsimp only
          rw [hnext]
          rfl
        | some d =>
          dsimp only
          rw [hkeys d rfl segment mem_cons_self, hnext]
          rfl
      | false =>
        rw [hallocated, if_neg Bool.false_ne_true] at hstored
        rw [if_neg Bool.false_ne_true, ← hstored]
        cases keysBySpan <;> rfl

theorem layerMajor_eq (dual : Bool) (hne : stored ≠ []) (baseKey fullKey : ℤ → EngineKey F)
    (kv : ℕ → ℕ × ℕ → D) :
    engine.layerMajor dual ⟨stored.map (keyed baseKey), if dual then
        stored.map fun segment => (fullKey segment.2.2).splitLayers engine.numLayers
        else []⟩ kv =
      if dual = true ∧ stored.length ≠ engine.numLayers then
        .error (.layerKeyMismatch engine.numLayers stored.length)
      else
        .ok ((range engine.numLayers).map fun layerId =>
            stored.map fun segment => layerKey layerId (baseKey segment.2.2),
          if dual then (range engine.numLayers).map fun layerId =>
            stored.map fun segment => layerKey layerId (fullKey segment.2.2)
          else [],
          (range engine.numLayers).map fun layerId =>
            stored.map fun segment => kv layerId (segment.1, segment.2.1)) := by
  have hkeys : ((stored.map (keyed baseKey)).map fun segment =>
      segment.2.2.splitLayers engine.numLayers) =
        table stored engine.numLayers fun segment layerId =>
          layerKey layerId (baseKey segment.2.2) := by
    rw [map_map]
    rfl
  have hfull : (stored.map fun segment => (fullKey segment.2.2).splitLayers engine.numLayers) =
      table stored engine.numLayers fun segment layerId =>
        layerKey layerId (fullKey segment.2.2) := rfl
  have hobjs : table (stored.map (keyed baseKey)) engine.numLayers
      (fun segment layerId => kv layerId (segment.1, segment.2.1)) =
        table stored engine.numLayers fun segment layerId =>
          kv layerId (segment.1, segment.2.1) := by
    rw [table, map_map]
    rfl
  have hlen : (table stored engine.numLayers fun segment layerId =>
      layerKey layerId (fullKey segment.2.2)).length = stored.length :=
    length_map _
  rw [layerMajor]
  cases dual with
  | false =>
    simp only [hkeys, hobjs, zipRows_table hne, Bool.false_eq_true, false_and, if_false]
    rfl
  | true =>
    simp only [hkeys, hfull, hobjs, zipRows_table hne, zipRowsStrict_table hne,
      if_true, true_and, length_map, length_range, hlen]
    split
    · rfl
    · rfl

end LayerChunks

section StoreLayer

variable {F E D : Type} {py : StoreBuiltins F D} {engine : StoreEngine F E}
  {configs : Option (RequestConfigs F)} {fullLocation : List Char} {layerId : ℕ}

theorem layerPuts_eq (hlayer : layerId < engine.numLayers)
    (targets : Option (List Char) × Option (List Char)) (allocations : Allocations)
    (keys fullKeys : ℕ → List (LayerEngineKey F)) (memoryObjs : ℕ → List D) :
    engine.layerPuts py (some targets) (some .base) allocations
        ((range engine.numLayers).map keys) ((range engine.numLayers).map fullKeys)
        ((range engine.numLayers).map memoryObjs) layerId =
      engine.dualPuts py [engine.metadata.kvDtype] (allocations.encoded layerId) targets.1
        targets.2 (keys layerId) (fullKeys layerId) (memoryObjs layerId) := by
  have hget : ∀ {A : Type} (f : ℕ → A),
      ((range engine.numLayers).map f)[layerId]? = some (f layerId) := by
    intro A f
    rw [getElem?_map, getElem?_range hlayer]
    rfl
  simp only [layerPuts, hget]

theorem layerPuts_none_eq (hlayer : layerId < engine.numLayers) (level : Option FidelityLevel)
    (allocations : Allocations) (keys : ℕ → List (LayerEngineKey F))
    (fullKeys : List (List (LayerEngineKey F))) (memoryObjs : ℕ → List D) :
    engine.layerPuts py none level allocations ((range engine.numLayers).map keys) fullKeys
        ((range engine.numLayers).map memoryObjs) layerId =
      engine.singlePuts py [engine.metadata.kvDtype] (allocations.encoded layerId) level
        (keys layerId) (memoryObjs layerId) := by
  simp only [layerPuts, getElem?_map, getElem?_range hlayer, Option.map_some]

theorem layerPuts_ok (py : StoreBuiltins F D) (hlayer : layerId < engine.numLayers)
    (targets : Option (List Char) × Option (List Char)) (allocations : Allocations)
    (keys fullKeys : ℕ → List (LayerEngineKey F)) (memoryObjs : ℕ → List D)
    (hfits : ∀ i < (memoryObjs layerId).length,
      engine.encodes [engine.metadata.kvDtype] (allocations.encoded layerId i) = true) :
    engine.layerPuts py (some targets) (some .base) allocations
        ((range engine.numLayers).map keys) ((range engine.numLayers).map fullKeys)
        ((range engine.numLayers).map memoryObjs) layerId =
      .ok [.put targets.2 (fullKeys layerId) (memoryObjs layerId),
        .put targets.1 (keys layerId) ((memoryObjs layerId).map (engine.encoded py))] := by
  rw [layerPuts_eq hlayer]
  exact dualPuts_ok hfits _ _ _ _

theorem key_of_dualPuts {dtypes : List Utils.TorchDtype} {allocated : ℕ → Bool}
    {baseLocation fullLocation : Option (List Char)} {keys fullKeys : List (LayerEngineKey F)}
    {memoryObjs : List D} {events : List (StoreEvent (LayerEngineKey F) D)}
    (h : engine.dualPuts py dtypes allocated baseLocation fullLocation keys fullKeys memoryObjs =
      .ok events) {location : List Char} {event : StoreEvent (LayerEngineKey F) D}
    (hevent : event ∈ events) {pair : LayerEngineKey F × D}
    (hpair : pair ∈ event.submitted location) : pair.1 ∈ keys ∨ pair.1 ∈ fullKeys := by
  have hput : ∀ {target : Option (List Char)} {ks : List (LayerEngineKey F)} {objs : List D},
      pair ∈ (StoreEvent.put target ks objs).submitted location → pair.1 ∈ ks := by
    intro target ks objs hmem
    rw [StoreEvent.submitted, mem_ite_nil_right] at hmem
    exact (of_mem_zip hmem.2).1
  rw [dualPuts] at h
  cases hencoded : engine.encodeAll py dtypes allocated 0 memoryObjs with
  | error error =>
    rw [hencoded] at h
    cases h
  | ok baseObjs =>
    rw [hencoded] at h
    obtain rfl := Except.ok.inj h
    rcases mem_cons.mp hevent with rfl | hbase
    · exact .inr (hput hpair)
    · obtain rfl := mem_singleton.mp hbase
      exact .inl (hput hpair)

theorem dualWritten_storeLayerChunks_iff (stored : List (ℕ × ℕ × ℤ)) (allocations : Allocations)
    (kv : ℕ → ℕ × ℕ → D) :
    DualWritten py engine configs fullLocation (range engine.numLayers) layerKey kv
        (engine.storeLayerChunks py (some (some cpuName, some fullLocation)) (some .base)
          allocations kv
          (⟨stored.map (keyed (engine.levelKey configs .base)),
            stored.map fun segment =>
              (engine.levelKey configs .full segment.2.2).splitLayers engine.numLayers⟩, none)) ↔
      (stored.length = 0 ∨ stored.length = engine.numLayers ∧
        ∀ layerId < engine.numLayers, ∀ i < stored.length,
          engine.encodes [engine.metadata.kvDtype] (allocations.encoded layerId i) = true) := by
  rw [storeLayerChunks]
  dsimp only [Option.isSome_some]
  rw [isEmpty_map]
  cases hempty : stored.isEmpty with
  | true =>
    refine iff_of_true (.of_nil rfl fun _ hmem => by cases hmem) (.inl ?_)
    rw [isEmpty_iff.mp hempty]
    rfl
  | false =>
    have hne : stored ≠ [] := isEmpty_eq_false_iff.mp hempty
    have hallocated : stored.map (keyed (engine.levelKey configs .base)) ≠ [] :=
      fun heq => hne (map_eq_nil_iff.mp heq)
    have hmajor : engine.layerMajor true ⟨stored.map (keyed (engine.levelKey configs .base)), _⟩
        kv = _ := layerMajor_eq true hne _ (engine.levelKey configs .full) kv
    simp only [if_true, true_and] at hmajor
    rw [or_iff_right fun heq => hne (length_eq_zero_iff.mp heq), hmajor,
      if_neg Bool.false_ne_true]
    rcases eq_or_ne stored.length engine.numLayers with hlen | hlen
    · rw [if_neg (not_not.mpr hlen), and_iff_right hlen]
      dsimp only
      constructor
      · intro h layerId hlayer i hi
        by_contra hencodes
        have hobjs : i < (stored.map fun segment => kv layerId (segment.1, segment.2.1)).length :=
          by rwa [length_map]
        obtain ⟨_, _, hsubmitted⟩ := h.submitted_nonempty hallocated (mem_range.mpr hlayer)
        obtain ⟨event, hevent, hpair⟩ := mem_flatMap.mp hsubmitted
        obtain ⟨layerId', hlayer', events, hputs, hmem⟩ := mem_putLayers hevent
        rw [layerPuts_eq (mem_range.mp hlayer')] at hputs
        have hsame : layerId' = layerId := by
          rcases key_of_dualPuts hputs hmem hpair with hkey | hkey
          · obtain ⟨segment, _, heq⟩ := mem_map.mp hkey
            exact congrArg LayerEngineKey.layerId heq
          · obtain ⟨segment, _, heq⟩ := mem_map.mp hkey
            exact congrArg LayerEngineKey.layerId heq
        subst hsame
        obtain ⟨error, herror⟩ := dualPuts_error py hobjs (eq_false_of_ne_true hencodes)
          (some cpuName) (some fullLocation)
          (stored.map fun segment => layerKey layerId' (engine.levelKey configs .base segment.2.2))
          (stored.map fun segment => layerKey layerId' (engine.levelKey configs .full segment.2.2))
        cases herror.symm.trans hputs
      · intro hfits
        have hfitsAt : ∀ layerId < engine.numLayers,
            ∀ i < (stored.map fun segment => kv layerId (segment.1, segment.2.1)).length,
              engine.encodes [engine.metadata.kvDtype] (allocations.encoded layerId i) = true := by
          intro layerId hlayer i hi
          rw [length_map] at hi
          exact hfits layerId hlayer i hi
        have hrun := putLayers_ok fun layerId hlayer =>
          layerPuts_ok py (mem_range.mp hlayer) (some cpuName, some fullLocation) allocations
            (fun layerId => stored.map fun segment =>
              layerKey layerId (engine.levelKey configs .base segment.2.2))
            (fun layerId => stored.map fun segment =>
              layerKey layerId (engine.levelKey configs .full segment.2.2))
            (fun layerId => stored.map fun segment => kv layerId (segment.1, segment.2.1))
            (hfitsAt layerId (mem_range.mp hlayer))
        refine .of_puts (congrArg Prod.snd hrun) rfl (fun layerId hlayer => ?_)
          fun layerId hlayer => ?_
        · refine (congrArg Prod.fst hrun).symm ▸ mem_flatMap.mpr ⟨layerId, hlayer, ?_⟩
          rw [map_map]
          exact mem_cons_of_mem _ mem_cons_self
        · refine (congrArg Prod.fst hrun).symm ▸ mem_flatMap.mpr ⟨layerId, hlayer, ?_⟩
          exact mem_cons_self
    · rw [if_pos hlen]
      refine iff_of_false (fun h => ?_) fun hfits => hlen hfits.1
      have hmismatch := h.noMismatch _ rfl
      cases hmismatch

variable {segments : List (ℕ × ℕ × ℤ)} {tokens : List ℕ} {mask : Option (List Bool)}

theorem nodup_spans (hspans : engine.spans (.tokens tokens) mask = .ok segments) :
    (segments.map fun segment => (segment.1, segment.2.1)).Nodup := by
  have hordered := (engine.tokenDatabase.consecutive_of_processTokens hspans).pairwise_lt
  rw [List.Nodup, pairwise_map]
  refine hordered.imp fun hlt heq => ?_
  rw [(Prod.mk.inj heq).2] at hlt
  exact Nat.lt_irrefl _ hlt

theorem fullKeysBySpan_eq (hspans : engine.spans (.tokens tokens) mask = .ok segments)
    {normalized : Option (RequestConfigs F)} {fullKey : ℤ → EngineKey F}
    (hfull : engine.makeKeyByHash (engine.requestConfigsForLevel normalized .full) = fullKey) :
    ∃ keysBySpan, engine.fullKeysBySpan tokens mask normalized = .ok keysBySpan ∧
      ∀ segment ∈ segments, keysBySpan.get? (segment.1, segment.2.1) =
        some ((fullKey segment.2.2).splitLayers engine.numLayers) := by
  rw [fullKeysBySpan, segmentsOf_eq, hspans, hfull]
  refine ⟨_, rfl, fun segment hsegment => ?_⟩
  have hfst : (((segments.map (keyed fullKey)).map fun segment =>
      ((segment.1, segment.2.1), segment.2.2.splitLayers engine.numLayers)).map Prod.fst) =
        segments.map fun segment => (segment.1, segment.2.1) := by
    rw [map_map, map_map]
    rfl
  rw [Dict.get?_eq_some_iff, Dict.items_setAll (d := Dict.empty) (hfst ▸ nodup_spans hspans)]
  exact mem_map_of_mem (mem_map_of_mem hsegment)

theorem dualWritten_selected_iff {keysBySpan : Dict (ℕ × ℕ) (List (LayerEngineKey F))}
    (hkeys : ∀ segment ∈ segments, keysBySpan.get? (segment.1, segment.2.1) =
      some ((engine.levelKey configs .full segment.2.2).splitLayers engine.numLayers))
    (present : LayerEngineKey F → Bool) (allocations : Allocations) (kv : ℕ → ℕ × ℕ → D) :
    DualWritten py engine configs fullLocation (range engine.numLayers) layerKey kv
        (engine.storeLayerChunks py (some (some cpuName, some fullLocation)) (some .base)
          allocations kv (engine.allocateLayerChunks (some keysBySpan) present allocations.chunk 0
            (segments.map (keyed (engine.levelKey configs .base))))) ↔
      engine.LayersFit
        (segments.filter (absent present (engine.levelKey configs .base))).length allocations := by
  rw [LayersFit]
  cases hlayers : engine.numLayers with
  | zero =>
    obtain ⟨error, hrun, herror⟩ := allocateLayerChunks_of_zero hlayers (some keysBySpan) present
      allocations.chunk 0 (segments.map (keyed (engine.levelKey configs .base)))
    refine iff_of_true ?_ (.inl rfl)
    rw [hrun, storeLayerChunks]
    cases error with
    | none => exact .of_nil rfl fun _ hmem => by cases hmem
    | some error => exact .of_nil rfl herror
  | succ n =>
    have hpos : engine.numLayers ≠ 0 := hlayers ▸ Nat.succ_ne_zero n
    rw [allocateLayerChunks_eq hlayers (fun d hd => Option.mem_some.mp hd ▸ hkeys) present
      allocations.chunk 0 rfl, Option.isSome_some, if_pos rfl, ← hlayers,
      dualWritten_storeLayerChunks_iff, length_take,
      Nat.min_eq_left (chunksAllocated_le _ _ _), or_iff_right hpos]

theorem dualWritten_storeLayer_iff
    (h : DualStoreConfigured py engine (.tokens tokens) configs fullLocation)
    (mask : Option (List Bool)) (present : LayerEngineKey F → Bool) (allocations : Allocations)
    (kv : ℕ → ℕ × ℕ → D) :
    DualWritten py engine configs fullLocation (range engine.numLayers) layerKey kv
        (engine.storeLayer py tokens mask configs present allocations kv) ↔
      (engine.healthy = true → engine.frozen = false →
        ∀ level segments, engine.storeSelection py.toBuiltins (.tokens tokens) configs mask =
          .ok (level, segments) → engine.LayersFit
            (segments.filter fun segment => !present (layerKey 0 segment.2.2)).length
            allocations) := by
  cases hserving : !engine.healthy || engine.frozen with
  | true =>
    rw [storeLayer, hserving]
    refine iff_of_true (.of_nil rfl fun _ hmem => by cases hmem) ?_
    intro hhealthy hfrozen
    rw [hhealthy, hfrozen] at hserving
    cases hserving
  | false =>
    rcases h.normalizeConfigs with ⟨error, herror⟩ | ⟨normalized, hconfigs, hbase, hfull⟩
    · rw [storeLayer, hserving, storeSelection_error_of_configs herror]
      simp only [tokens?, hashes?, offsets?] at herror
      rw [herror]
      refine iff_of_true (.of_nil rfl ?_) fun _ _ _ _ hselection => absurd hselection (by simp)
      intro error' hmem
      rw [← Option.mem_some.mp hmem]
      rfl
    · rw [storeSelection_eq_spans hconfigs, storeLayer, hserving]
      simp only [tokens?, hashes?, offsets?] at hconfigs
      rw [hconfigs]
      simp only [Bool.false_eq_true, if_false, layerTargets, h.shouldDualStoreBase, if_true,
        h.targets, bind, Except.bind, segmentsOf_eq]
      cases hspans : engine.spans (.tokens tokens) mask with
      | error message =>
        simp only [fullKeysBySpan, segmentsOf_eq, hspans, Except.mapError, Except.map]
        refine iff_of_true (.of_nil rfl ?_) fun _ _ _ _ hselection => absurd hselection (by simp)
        intro error hmem
        rw [← Option.mem_some.mp hmem]
        rfl
      | ok segments =>
        obtain ⟨keysBySpan, hkeysBySpan, hkeys⟩ := fullKeysBySpan_eq hspans hfull
        simp only [hkeysBySpan, Except.mapError, Except.map, pure, Except.pure, hbase]
        rw [dualWritten_selected_iff hkeys]
        have hcount : ((segments.map (keyed (engine.levelKey configs .base))).filter
            fun segment => !present (layerKey 0 segment.2.2)).length =
              (segments.filter (absent present (engine.levelKey configs .base))).length := by
          rw [filter_map, length_map]
          rfl
        simp only [Bool.or_eq_false_iff, Bool.not_eq_eq_eq_not, Bool.not_false] at hserving
        constructor
        · intro hfits _ _ level segments' hselection
          obtain ⟨_, rfl⟩ := Prod.mk.inj (Except.ok.inj hselection)
          rw [hcount]
          exact hfits
        · intro hfits
          rw [← hcount]
          exact hfits hserving.1 hserving.2 _ _ rfl

theorem dualWrites_iff {request : CacheRequest}
    (h : DualStoreConfigured py engine request configs fullLocation) (mask : Option (List Bool))
    (allocations : Allocations) :
    (∀ kv, DualWritten py engine configs fullLocation [()] (fun _ key => key) (fun _ => kv)
        (engine.store py request mask configs allocations kv) ↔
      (engine.healthy = true → engine.passive = false → engine.frozen = false →
        ∀ level segments, engine.storeSelection py.toBuiltins request configs mask =
          .ok (level, segments) → engine.StoreFits segments.length allocations)) ∧
    ∀ tokens, request = .tokens tokens → ∀ present kv,
      (DualWritten py engine configs fullLocation (range engine.numLayers) layerKey kv
          (engine.storeLayer py tokens mask configs present allocations kv) ↔
        (engine.healthy = true → engine.frozen = false →
          ∀ level segments, engine.storeSelection py.toBuiltins request configs mask =
            .ok (level, segments) → engine.LayersFit
              (segments.filter fun segment => !present (layerKey 0 segment.2.2)).length
              allocations)) := by
  refine ⟨dualWritten_store_iff h mask allocations, ?_⟩
  rintro tokens rfl present kv
  exact dualWritten_storeLayer_iff h mask present allocations kv

def tenfold : StoreBuiltins ℤ ℕ where
  toBuiltins := FidelityEngine.wholeNumbers
  lower := map Char.toLower
  quantize := fun n => 10 * n

def dualEngine : StoreEngine ℤ Unit where
  toFidelityEngine := FidelityEngine.autoEngine
  storeBaseVariant := true
  storeFullVariant := true
  cleanupBaseOnFullStore := false
  storeBaseTarget := some "local_cpu".toList
  storeFullTarget := some "disk".toList
  storeLocation := none
  storageBackends := [cpuName, diskName]
  baseCodec := .int8
  layerGroupDtypes := []
  numLayers := 2
  healthy := true
  passive := false
  frozen := false

def roomFor (chunks : ℕ) : Allocations where
  chunk := fun i => decide (i < chunks)
  encoded := fun _ _ => true

theorem dualEngine_configured (tokens : List ℕ)
    (hlevel : (dualEngine.decision tenfold.toBuiltins none (some tokens) none none).map
      FidelityDecision.level = .ok .base) :
    DualStoreConfigured tenfold dualEngine (.tokens tokens) none diskName := by
  refine ⟨rfl, rfl, rfl, rfl, fun decision hdecision => ?_⟩
  simp only [tokens?, hashes?, offsets?] at hdecision
  rw [hdecision] at hlevel
  exact Except.ok.inj hlevel

theorem dualWrites_iff_twoChunks :
    DualWritten tenfold dualEngine none diskName [()] (fun _ key => key) (fun _ span => span.2)
        (dualEngine.store tenfold (.tokens [1, 2, 3, 4, 5, 6]) none none (roomFor 2)
          fun span => span.2) ∧
      DualWritten tenfold dualEngine none diskName (range 2) layerKey
        (fun layerId span => 100 * layerId + span.2)
        (dualEngine.storeLayer tenfold [1, 2, 3, 4, 5, 6] none none (fun _ => false) (roomFor 2)
          fun layerId span => 100 * layerId + span.2) := by
  have hlength : ∀ level segments, dualEngine.storeSelection tenfold.toBuiltins
      (.tokens [1, 2, 3, 4, 5, 6]) none none = .ok (level, segments) → segments.length = 2 := by
    intro level segments hselection
    have htwo : ((dualEngine.storeSelection tenfold.toBuiltins (.tokens [1, 2, 3, 4, 5, 6]) none
        none).toOption.map fun selection => selection.2.length) = some 2 := by decide
    rw [hselection] at htwo
    exact Option.some.inj htwo
  obtain ⟨hstore, hlayers⟩ := dualWrites_iff
    (dualEngine_configured [1, 2, 3, 4, 5, 6] (by decide)) none (roomFor 2)
  refine ⟨(hstore _).mpr ?_, (hlayers _ rfl _ _).mpr ?_⟩
  · intro _ _ _ level segments hselection
    rw [hlength level segments hselection]
    exact .inr ⟨rfl, fun _ _ => rfl⟩
  · intro _ _ level segments hselection
    rw [Bool.not_false, filter_true, hlength level segments hselection]
    exact .inr (.inr ⟨rfl, fun _ _ _ _ => rfl⟩)

theorem not_dualWritten_stoppedAllocation :
    (DualStoreConfigured tenfold dualEngine (.tokens [1, 2, 3, 4, 5, 6]) none diskName ∧
      ¬ DualWritten tenfold dualEngine none diskName [()] (fun _ key => key) (fun _ span => span.2)
        (dualEngine.store tenfold (.tokens [1, 2, 3, 4, 5, 6]) none none (roomFor 1)
          fun span => span.2)) ∧
      DualStoreConfigured tenfold dualEngine (.tokens [1, 2, 3]) none diskName ∧
        ¬ DualWritten tenfold dualEngine none diskName (range 2) layerKey
          (fun layerId span => 100 * layerId + span.2)
          (dualEngine.storeLayer tenfold [1, 2, 3] none none (fun _ => false) (roomFor 2)
            fun layerId span => 100 * layerId + span.2) := by
  refine ⟨⟨dualEngine_configured _ (by decide), fun h => ?_⟩, dualEngine_configured _ (by decide),
    fun h => ?_⟩
  · have hmismatch := h.noMismatch (.keyMismatch 1 2) (by rfl)
    cases hmismatch
  · have hmismatch := h.noMismatch (.layerKeyMismatch 2 1) (by rfl)
    cases hmismatch

end StoreLayer

end LMCache.Fidelity.StoreEngine
