import LMCache.Fidelity.KvEvents
import LMCache.Foundations.Execution

namespace LMCache.Fidelity.StoreEngine.KvCall

open Execution List

variable {F E D : Type} {py : StoreBuiltins F D} {c : KvCall F E D}

section StoreLayer

variable {tokens : List ℕ} {mask : Option (List Bool)} {configs : Option (RequestConfigs F)}
  {present : LayerEngineKey F → Bool} {allocations : Allocations} {level : Option FidelityLevel}

theorem handsOver_singleLayers_iff (key : EngineKey F) (kv : ℕ → D) :
    (∀ layerId < c.engine.numLayers, ∃ i, ∃ other ∈ c.handedKeys (putLayers (fun layerId =>
        c.engine.singlePuts py [c.engine.metadata.kvDtype] (allocations.encoded layerId) level
          [layerKey layerId key] [kv layerId]) (range c.engine.numLayers)).1 i,
        other.layerId = layerId ∧ other.chunkHash = key.chunkHash) ↔
      ∀ layerId < c.engine.numLayers,
        (level = some .base → c.engine.encodes [c.engine.metadata.kvDtype]
          (allocations.encoded layerId 0) = true) ∧ c.Takes layerId c.engine.storeLocation := by
  by_cases hencodes : ∀ layerId < c.engine.numLayers, level = some .base →
    c.engine.encodes [c.engine.metadata.kvDtype] (allocations.encoded layerId 0) = true
  · have hputs : ∀ layerId ∈ range c.engine.numLayers, ∃ objs,
        c.engine.singlePuts py [c.engine.metadata.kvDtype] (allocations.encoded layerId) level
          [layerKey layerId key] [kv layerId] =
            .ok [.put c.engine.storeLocation [layerKey layerId key] objs] :=
      fun layerId hlayer => singlePuts_ok py
        (fun hlevel => encodes_one (hencodes layerId (mem_range.mp hlayer) hlevel)) _
    choose! objs hobjs using hputs
    rw [putLayers_ok hobjs, ← map_eq_flatMap]
    refine forall₂_congr fun layerId hlayer => ?_
    rw [and_iff_right (hencodes layerId hlayer)]
    have hput : ∀ i < c.engine.numLayers, ((range c.engine.numLayers).map fun layerId =>
        StoreEvent.put c.engine.storeLocation [layerKey layerId key] (objs layerId))[i]? = some
          (.put c.engine.storeLocation [layerKey i key] (objs i)) := by
      intro i hi
      rw [getElem?_map, getElem?_range hi]
      rfl
    constructor
    · rintro ⟨i, other, hmem, hother, _⟩
      by_cases hi : i < c.engine.numLayers
      · obtain ⟨rfl, htakes⟩ := (mem_handedKeys_iff (hput i hi)).mp hmem
        obtain rfl : i = layerId := hother
        exact htakes
      · rw [handedKeys, getElem?_eq_none (by simpa using hi)] at hmem
        cases hmem
    · exact fun htakes => ⟨layerId, layerKey layerId key,
        (mem_handedKeys_iff (hput layerId hlayer)).mpr ⟨rfl, htakes⟩, rfl, rfl⟩
  · refine iff_of_false (fun h => hencodes fun layerId hlayer hlevel => ?_) fun h =>
      hencodes fun layerId hlayer => (h layerId hlayer).1
    by_contra hfails
    obtain ⟨i, other, hmem, hother, _⟩ := h layerId hlayer
    obtain ⟨location, keys, objs, hevent, hkeys⟩ := put_of_handedKeys hmem
    obtain ⟨layerId', _, events, hputs, hevents⟩ := mem_putLayers hevent
    by_cases hencodes' : level = some .base → c.engine.encodes [c.engine.metadata.kvDtype]
      (allocations.encoded layerId' 0) = true
    · have hone : level = some .base → ∀ i < [kv layerId'].length,
          c.engine.encodes [c.engine.metadata.kvDtype] (allocations.encoded layerId' i) = true :=
        fun hlevel => encodes_one (hencodes' hlevel)
      obtain ⟨objs', hobjs⟩ := singlePuts_ok py hone [layerKey layerId' key]
      obtain rfl := Except.ok.inj (hobjs.symm.trans hputs)
      obtain ⟨rfl, rfl, rfl⟩ := StoreEvent.put.inj (mem_singleton.mp hevents)
      obtain rfl := mem_singleton.mp hkeys
      obtain rfl : layerId' = layerId := hother
      exact hfails (hencodes' hlevel)
    · rw [Classical.not_imp] at hencodes'
      have hlt : 0 < [kv layerId'].length := Nat.one_pos
      obtain ⟨error, herror⟩ := singlePuts_error py hlt (eq_false_of_ne_true hencodes'.2)
        [layerKey layerId' key]
      rw [hlevel, herror] at hputs
      cases hputs

variable {targets : Option (Option (List Char) × Option (List Char))}
  {baseKey fullKey : ℤ → EngineKey F}

theorem handsOver_storeLayerChunks_iff (hdual : targets.isSome = c.engine.shouldDualStoreBase level)
    (htargets : ∀ selected ∈ targets, c.engine.dualStoreTargets py = .ok selected)
    (hlayers : c.engine.numLayers ≠ 0) (hbase : ∀ hashVal, (baseKey hashVal).chunkHash = hashVal)
    (hfull : ∀ hashVal, (fullKey hashVal).chunkHash = hashVal) (span : ℕ × ℕ × ℤ)
    (kv : ℕ → ℕ × ℕ → D) :
    (∀ layerId < c.engine.numLayers, ∃ i, ∃ key ∈ c.handedKeys
        (c.engine.storeLayerChunks py targets level allocations kv
          (⟨[span].map (keyed baseKey), if targets.isSome then
            [span].map fun segment => (fullKey segment.2.2).splitLayers c.engine.numLayers
            else []⟩, none)).events i, key.layerId = layerId ∧ key.chunkHash = span.2.2) ↔
      c.PutsLayers py level allocations := by
  have hmajor : c.engine.layerMajor targets.isSome ⟨[span].map (keyed baseKey), _⟩ kv = _ :=
    layerMajor_eq targets.isSome (cons_ne_nil span []) baseKey fullKey kv
  rw [storeLayerChunks, PutsLayers, ← hdual]
  dsimp only
  rw [hmajor, isEmpty_map, isEmpty_cons, if_neg Bool.false_ne_true]
  cases targets with
  | none =>
    simp only [Option.isSome_none, Bool.false_eq_true, false_and, if_false]
    have hputs : ∀ layerId ∈ range c.engine.numLayers, c.engine.layerPuts py none level
        allocations _ _ _ layerId = _ := fun layerId hlayer =>
      layerPuts_none_eq (mem_range.mp hlayer) level allocations
        (fun layerId => [span].map fun segment => layerKey layerId (baseKey segment.2.2)) []
        (fun layerId => [span].map fun segment => kv layerId (segment.1, segment.2.1))
    rw [putLayers_congr hputs, ← hbase span.2.2]
    exact handsOver_singleLayers_iff (baseKey span.2.2) fun layerId => kv layerId (span.1, span.2.1)
  | some targets =>
    obtain rfl := level_of_shouldDualStoreBase hdual.symm
    simp only [Option.isSome_some, true_and, if_true, length_singleton,
      htargets targets rfl, Except.ok.injEq, exists_eq_left']
    by_cases hone : c.engine.numLayers = 1
    · rw [if_neg (not_not.mpr hone.symm), and_iff_right hone]
      have hputs : ∀ layerId ∈ range c.engine.numLayers, c.engine.layerPuts py (some targets)
          (some .base) allocations _ _ _ layerId = _ := fun layerId hlayer =>
        layerPuts_eq (mem_range.mp hlayer) targets allocations
          (fun layerId => [span].map fun segment => layerKey layerId (baseKey segment.2.2))
          (fun layerId => [span].map fun segment => layerKey layerId (fullKey segment.2.2))
          (fun layerId => [span].map fun segment => kv layerId (segment.1, segment.2.1))
      dsimp only
      rw [putLayers_congr hputs, hone]
      simp only [range_one, map_cons, map_nil, putLayers, Nat.lt_one_iff, forall_eq]
      cases hencodes : c.engine.encodes [c.engine.metadata.kvDtype] (allocations.encoded 0 0) with
      | false =>
        have hlt : 0 < [kv 0 (span.1, span.2.1)].length := Nat.one_pos
        obtain ⟨error, herror⟩ := dualPuts_error py hlt hencodes targets.1 targets.2
          [layerKey 0 (baseKey span.2.2)] [layerKey 0 (fullKey span.2.2)]
        rw [herror]
        exact iff_of_false handed_nil (by simp)
      | true =>
        rw [dualPuts_ok (encodes_one hencodes), and_iff_right rfl]
        exact handed_dual_iff (P := fun key : LayerEngineKey F =>
          key.layerId = 0 ∧ key.chunkHash = span.2.2) ⟨rfl, hbase _⟩ ⟨rfl, hfull _⟩
    · rw [if_pos (Ne.symm hone)]
      refine iff_of_false (fun h => ?_) fun h => hone h.1
      exact handed_nil (h 0 (Nat.pos_of_ne_zero hlayers))

variable {keysBySpan : Option (Dict (ℕ × ℕ) (List (LayerEngineKey F)))}
  {segments : List (ℕ × ℕ × ℤ)}

theorem described_allocated_iff (hdual : targets.isSome = c.engine.shouldDualStoreBase level)
    (htargets : ∀ selected ∈ targets, c.engine.dualStoreTargets py = .ok selected)
    (hlayers : c.engine.numLayers ≠ 0) (hsome : keysBySpan.isSome = targets.isSome)
    (hbase : ∀ hashVal, (baseKey hashVal).chunkHash = hashVal)
    (hfull : ∀ hashVal, (fullKey hashVal).chunkHash = hashVal)
    (hkeys : ∀ d ∈ keysBySpan, ∀ segment ∈ segments, d.get? (segment.1, segment.2.1) =
      some ((fullKey segment.2.2).splitLayers c.engine.numLayers)) (hfits : Fits tokens segments)
    (kv : ℕ → ℕ × ℕ → D) {missing : List (ℕ × ℕ × ℤ)}
    (hmissing : segments.filter (absent present baseKey) = missing)
    {allocated : LayerChunks F × Option (StoreError F)}
    (hallocated : c.engine.allocateLayerChunks keysBySpan present allocations.chunk 0
      (segments.map (keyed baseKey)) = allocated) :
    List.Forall₂ (fun segment event => (∃ ts, CacheRequest.tokens tokens = .tokens ts ∧
        c.Describes ts segment event) ∧ ∀ layerId < c.engine.numLayers,
          ∃ i, ∃ key ∈ c.handedKeys
            (c.engine.storeLayerChunks py targets level allocations kv allocated).events i,
              key.layerId = layerId ∧ key.chunkHash = segment.2.2.chunkHash)
        allocated.1.chunks (kvEventsFrom (.tokens tokens) c.device 0 allocated.1.chunks) ↔
      chunksAllocated allocations.chunk 0 missing.length = 0 ∨
        ∃ segment, missing.map (keyed baseKey) = [segment] ∧ c.EndsTokens tokens segment ∧
          c.PutsLayers py level allocations := by
  obtain ⟨n, hn⟩ := Nat.exists_eq_succ_of_ne_zero hlayers
  have hmissingFits : Fits tokens missing := hmissing ▸ hfits.sublist filter_sublist
  rw [allocateLayerChunks_eq hn hkeys present allocations.chunk 0 rfl, hmissing, hsome]
    at hallocated
  obtain rfl := hallocated
  rw [described_events_iff fun ts hts => by
    obtain rfl := CacheRequest.tokens.inj hts
    exact (hmissingFits.sublist (take_sublist _ _)).map _]
  by_cases hnone : chunksAllocated allocations.chunk 0 missing.length = 0
  · rw [hnone]
    exact iff_of_true (.inl rfl) (.inl rfl)
  rw [or_iff_right (map_take_ne_nil hnone), or_iff_right hnone]
  have hone : ∀ span : ℕ × ℕ × ℤ, missing = [span] →
      missing.take (chunksAllocated allocations.chunk 0 missing.length) = [span] := by
    rintro span rfl
    rw [length_singleton, chunksAllocated, if_pos (chunksAllocated_one hnone)]
    rfl
  constructor
  · rintro ⟨ts, segment, htokens, hstored, hends, hhanded⟩
    obtain rfl := CacheRequest.tokens.inj htokens
    have hmap := (take_eq_singleton_iff hmissingFits hends.1 hnone).mp hstored
    obtain ⟨span, hspan, rfl⟩ := map_eq_singleton_iff.mp hmap
    rw [hone span hspan, keyed, hbase] at hhanded
    exact ⟨_, hmap, hends,
      (handsOver_storeLayerChunks_iff hdual htargets hlayers hbase hfull span kv).mp hhanded⟩
  · rintro ⟨segment, hmap, hends, hputs⟩
    have hstored := (take_eq_singleton_iff hmissingFits hends.1 hnone).mpr hmap
    obtain ⟨span, hspan, rfl⟩ := map_eq_singleton_iff.mp hmap
    refine ⟨tokens, _, rfl, hstored, hends, ?_⟩
    rw [hone span hspan, keyed, hbase]
    exact (handsOver_storeLayerChunks_iff hdual htargets hlayers hbase hfull span kv).mpr hputs

variable {normalized : Option (RequestConfigs F)} {engine : StoreEngine F E}

theorem layerAnnounced_eq (hserving : (!engine.healthy || engine.frozen) = false)
    (hconfigs : engine.normalizeConfigs py.toBuiltins configs (some tokens) none none =
      .ok (normalized, level))
    (htargets : engine.layerTargets py tokens mask normalized level = .ok (targets, keysBySpan))
    (hspans : engine.spans (.tokens tokens) mask = .ok segments)
    (hkeys : ∀ start stop, (engine.allocateLayerChunks keysBySpan present allocations.chunk 0
      (segments.map (keyed (engine.makeKeyByHash normalized)))).2 ≠ some (.keyMissing start stop)) :
    layerAnnounced py engine tokens mask configs present allocations =
      (engine.allocateLayerChunks keysBySpan present allocations.chunk 0
        (segments.map (keyed (engine.makeKeyByHash normalized)))).1.chunks := by
  rw [layerAnnounced, hserving, hconfigs]
  simp only [Bool.false_eq_true, if_false, htargets, segmentsOf_eq, hspans, Except.mapError,
    Except.map]

theorem layerAnnounced_error {error : StoreError F}
    (hconfigs : engine.normalizeConfigs py.toBuiltins configs (some tokens) none none =
      .ok (normalized, level))
    (herror : engine.layerTargets py tokens mask normalized level = .error error) :
    layerAnnounced py engine tokens mask configs present allocations = [] := by
  rw [layerAnnounced, hconfigs]
  simp only [herror, ite_self]

theorem described_targets_iff (hserving : (!c.engine.healthy || c.engine.frozen) = false)
    (hconfigs : c.engine.normalizeConfigs py.toBuiltins configs (some tokens) none none =
      .ok (normalized, level)) (hspans : c.engine.spans (.tokens tokens) mask = .ok segments)
    (hlayers : c.engine.numLayers ≠ 0)
    (htargets : c.engine.layerTargets py tokens mask normalized level = .ok (targets, keysBySpan))
    (hdual : targets.isSome = c.engine.shouldDualStoreBase level)
    (hselected : ∀ selected ∈ targets, c.engine.dualStoreTargets py = .ok selected)
    (hsome : keysBySpan.isSome = targets.isSome) {fullKey : ℤ → EngineKey F}
    (hfull : ∀ hashVal, (fullKey hashVal).chunkHash = hashVal)
    (hkeys : ∀ d ∈ keysBySpan, ∀ segment ∈ segments, d.get? (segment.1, segment.2.1) =
      some ((fullKey segment.2.2).splitLayers c.engine.numLayers)) (kv : ℕ → ℕ × ℕ → D)
    {missing : List (ℕ × ℕ × EngineKey F)}
    (hmissing : ((segments.map (keyed (c.engine.makeKeyByHash normalized))).filter
      fun segment => !present (layerKey 0 segment.2.2)) = missing) :
    List.Forall₂ (fun segment event => (∃ ts, CacheRequest.tokens tokens = .tokens ts ∧
        c.Describes ts segment event) ∧ ∀ layerId < c.engine.numLayers,
          ∃ i, ∃ key ∈ c.handedKeys
            (c.engine.storeLayer py tokens mask configs present allocations kv).events i,
              key.layerId = layerId ∧ key.chunkHash = segment.2.2.chunkHash)
        (layerAnnounced py c.engine tokens mask configs present allocations)
        (kvEventsFrom (.tokens tokens) c.device 0
          (layerAnnounced py c.engine tokens mask configs present allocations)) ↔
      chunksAllocated allocations.chunk 0 missing.length = 0 ∨
        ∃ segment, missing = [segment] ∧ c.EndsTokens tokens segment ∧
          c.PutsLayers py level allocations := by
  obtain ⟨n, hn⟩ := Nat.exists_eq_succ_of_ne_zero hlayers
  have habsent : ((segments.filter (absent present (c.engine.makeKeyByHash normalized))).map
      (keyed (c.engine.makeKeyByHash normalized))) = missing := by
    rw [← hmissing, filter_map]
    rfl
  have hrun : c.engine.storeLayer py tokens mask configs present allocations kv =
      c.engine.storeLayerChunks py targets level allocations kv
        (c.engine.allocateLayerChunks keysBySpan present allocations.chunk 0
          (segments.map (keyed (c.engine.makeKeyByHash normalized)))) := by
    rw [storeLayer, hserving, hconfigs]
    simp only [Bool.false_eq_true, if_false, htargets, segmentsOf_eq, hspans, Except.mapError,
      Except.map]
  rw [hrun, layerAnnounced_eq hserving hconfigs htargets hspans, ← habsent, length_map]
  · exact described_allocated_iff hdual hselected hlayers hsome (fun _ => rfl) hfull hkeys
      (fits_spans hspans) kv rfl rfl
  · intro start stop
    rw [allocateLayerChunks_eq hn hkeys present allocations.chunk 0 rfl]
    intro heq
    cases heq

theorem described_storeLayer_iff
    (hrequest : c.request = .storeLayer tokens mask configs present allocations) :
    c.Described py (c.kvEvents py) ↔ c.Covered py := by
  rw [Described, kvEvents, announced, Covered]
  simp only [HandsOver, hrequest, KvRequest.cacheRequest]
  cases hserving : !c.engine.healthy || c.engine.frozen with
  | true =>
    rw [layerAnnounced, hserving, if_pos rfl]
    refine iff_of_true .nil fun hhealthy hfrozen => ?_
    rw [hhealthy, hfrozen] at hserving
    cases hserving
  | false =>
    cases hconfigs : c.engine.normalizeConfigs py.toBuiltins configs
      (CacheRequest.tokens tokens).tokens? (CacheRequest.tokens tokens).hashes?
        (CacheRequest.tokens tokens).offsets? with
    | error error =>
      rw [storeSelection_error_of_configs hconfigs]
      simp only [CacheRequest.tokens?, CacheRequest.hashes?, CacheRequest.offsets?] at hconfigs
      rw [layerAnnounced, hserving, hconfigs]
      refine iff_of_true .nil fun _ _ _ _ _ hselection => ?_
      cases hselection
    | ok pair =>
      obtain ⟨normalized, level⟩ := pair
      rw [storeSelection_eq_spans hconfigs]
      simp only [CacheRequest.tokens?, CacheRequest.hashes?, CacheRequest.offsets?] at hconfigs
      cases hspans : c.engine.spans (.tokens tokens) mask with
      | error message =>
        have hnil : layerAnnounced py c.engine tokens mask configs present allocations = [] := by
          rw [layerAnnounced, hserving, hconfigs]
          simp only [segmentsOf_eq, hspans, Except.mapError, Except.map]
          split
          · rfl
          · split
            · rfl
            · rfl
        rw [hnil]
        refine iff_of_true .nil fun _ _ _ _ _ hselection => ?_
        cases hselection
      | ok segments =>
        simp only [Bool.or_eq_false_iff, Bool.not_eq_eq_eq_not, Bool.not_false] at hserving
        rw [forall_prop_of_true hserving.1, forall_prop_of_true hserving.2]
        simp only [Except.mapError, Except.map, Except.ok.injEq, Prod.mk.injEq, and_imp,
          forall_apply_eq_imp_iff, forall_eq']
        have hserved : (!c.engine.healthy || c.engine.frozen) = false := by simp [hserving]
        rcases eq_or_ne c.engine.numLayers 0 with hzero | hlayers
        · have hnil : layerAnnounced py c.engine tokens mask configs present allocations = [] := by
            cases htargets : c.engine.layerTargets py tokens mask normalized level with
            | error error => exact layerAnnounced_error hconfigs htargets
            | ok selected =>
              obtain ⟨error, hallocated, hmismatch⟩ := allocateLayerChunks_of_zero hzero selected.2
                present allocations.chunk 0
                (segments.map (keyed (c.engine.makeKeyByHash normalized)))
              rw [layerAnnounced_eq hserved hconfigs htargets hspans, hallocated]
              rw [hallocated]
              rintro start stop rfl
              cases hmismatch _ rfl
          rw [hnil]
          exact iff_of_true .nil fun hne => absurd hzero hne
        rw [forall_prop_of_true hlayers]
        have htargets := layerTargets.eq_1 py c.engine tokens mask normalized level
        by_cases hdual : c.engine.shouldDualStoreBase level = true
        · rw [if_pos hdual] at htargets
          rw [forall_prop_of_true hdual]
          cases hselected : c.engine.dualStoreTargets py with
          | error error =>
            rw [hselected] at htargets
            rw [layerAnnounced_error hconfigs htargets]
            refine iff_of_true .nil ?_
            rintro ⟨_, hfound⟩
            cases hfound
          | ok targets =>
            have hfull : c.engine.makeKeyByHash
              (c.engine.requestConfigsForLevel normalized .full) = _ := rfl
            obtain ⟨keysBySpan, hkeysBySpan, hkeys⟩ := fullKeysBySpan_eq hspans hfull
            rw [hselected, hkeysBySpan] at htargets
            rw [forall_prop_of_true ⟨targets, rfl⟩]
            exact described_targets_iff hserved hconfigs hspans hlayers htargets hdual.symm
              (fun _ hmem => Option.mem_some.mp hmem ▸ hselected) rfl (fun _ => rfl)
              (fun d hd => Option.mem_some.mp hd ▸ hkeys) c.kv rfl
        · rw [if_neg hdual] at htargets
          rw [forall_prop_of_false hdual, true_imp_iff]
          have hhash : ∀ hashVal, (c.engine.makeKeyByHash normalized hashVal).chunkHash =
            hashVal := fun _ => rfl
          exact described_targets_iff hserved hconfigs hspans hlayers htargets
            ((Bool.not_eq_true _).mp hdual).symm (fun _ hmem => absurd hmem (Option.not_mem_none _)) rfl
            hhash (fun _ hmem => absurd hmem (Option.not_mem_none _)) c.kv rfl

end StoreLayer

theorem described_iff (c : KvCall F E D) : c.Described py (c.kvEvents py) ↔ c.Covered py := by
  cases hrequest : c.request with
  | store request mask configs allocations => exact described_store_iff hrequest
  | storeLayer tokens mask configs present allocations => exact described_storeLayer_iff hrequest

theorem length_kvEventsFrom (request : CacheRequest) (device : Option (List Char)) (prevKey : ℤ)
    (segments : List (ℕ × ℕ × EngineKey F)) :
    (kvEventsFrom request device prevKey segments).length = segments.length := by
  induction segments generalizing prevKey with
  | nil => rfl
  | cons segment segments ih => exact congrArg Nat.succ (ih _)

theorem final_exec_append (queue : List CacheStoreEvent) (calls : List (KvCall F E D)) :
    final (exec py) queue calls = queue ++ final (exec py) [] calls := by
  induction calls generalizing queue with
  | nil => exact (append_nil queue).symm
  | cons c calls ih =>
    rw [final_cons, final_cons, ih (exec py queue c), ih (exec py [] c), exec, exec,
      nil_append, append_assoc]

theorem describedRun_cons_iff (c : KvCall F E D) (calls : List (KvCall F E D))
    (rest : List CacheStoreEvent) :
    DescribedRun py (c :: calls) (c.kvEvents py ++ rest) ↔
      c.Described py (c.kvEvents py) ∧ DescribedRun py calls rest := by
  constructor
  · rintro ⟨events, rest', happend, hdescribed, hrest⟩
    have hlength : (c.kvEvents py).length = events.length :=
      (length_kvEventsFrom _ _ _ _).trans hdescribed.length_eq
    obtain ⟨rfl, rfl⟩ := append_inj happend hlength
    exact ⟨hdescribed, hrest⟩
  · exact fun h => ⟨_, _, rfl, h.1, h.2⟩

theorem describedRun_iff (py : StoreBuiltins F D) (calls : List (KvCall F E D)) :
    DescribedRun py calls (final (exec py) [] calls) ↔ ∀ c ∈ calls, c.Covered py := by
  induction calls with
  | nil => exact iff_of_true rfl fun _ hmem => absurd hmem not_mem_nil
  | cons c calls ih =>
    rw [final_cons, final_exec_append, exec, nil_append, describedRun_cons_iff,
      described_iff, ih, forall_mem_cons]

theorem Described.size {events : List CacheStoreEvent} (h : c.Described py events) :
    ∀ event ∈ events, event.tokenIds.length = event.blockSize := by
  rw [Described] at h
  generalize c.announced py = announced at h
  induction h with
  | nil => exact fun _ hmem => absurd hmem not_mem_nil
  | cons hevent _ ih =>
    obtain ⟨⟨tokens, _, hdescribes⟩, _⟩ := hevent
    exact forall_mem_cons.mpr ⟨hdescribes.size, ih⟩

def sixTokens : KvCall ℤ Unit ℕ where
  engine := dualEngine
  request := .store (.tokens [1, 2, 3, 4, 5, 6]) none none (roomFor 2)
  kv := fun _ span => span.2
  device := none
  handed := fun _ _ => 2

theorem not_describedRun_sixTokens :
    (sixTokens.kvEvents tenfold).map CacheStoreEvent.tokenIds = [[1, 2, 3, 4, 5], [5, 6]] ∧
      ¬ DescribedRun tenfold [sixTokens] (final (exec tenfold) [] [sixTokens]) := by
  have hids : (sixTokens.kvEvents tenfold).map CacheStoreEvent.tokenIds =
    [[1, 2, 3, 4, 5], [5, 6]] := by decide
  refine ⟨hids, fun h => ?_⟩
  rw [final_cons, final_exec_append, exec, nil_append, describedRun_cons_iff] at h
  have hsizes : ∀ event ∈ sixTokens.kvEvents tenfold,
    event.tokenIds.length = event.blockSize := h.1.size
  revert hsizes
  decide

end LMCache.Fidelity.StoreEngine.KvCall
