import LMCache.Fidelity.LayerWrites

namespace LMCache.Fidelity

open List Slice

structure CacheStoreEvent where
  blockHashes : List ℤ
  parentBlockHash : Option ℤ
  tokenIds : List ℤ
  blockSize : ℕ
  loraId : Option ℤ
  medium : List Char
  loraName : Option (List Char)
  deriving DecidableEq

def convertTokensToList (tokens : Option (List ℕ)) (tokenStart tokenEnd : ℕ) : List ℕ :=
  match tokens with
  | none => []
  | some tokens => slice tokens tokenStart (tokenEnd + 1)

namespace StoreEngine

variable {F E D : Type}

def tokenIds (request : CacheRequest) (start stop : ℕ) : List ℤ :=
  match request with
  | .tokens ts => (convertTokensToList (some ts) start stop).map Int.ofNat
  | .hashes hs _ => slice hs start (stop + 1)

def kvEvent (request : CacheRequest) (device : Option (List Char)) (prevKey : ℤ)
    (segment : ℕ × ℕ × EngineKey F) : CacheStoreEvent where
  blockHashes := [segment.2.2.chunkHash]
  parentBlockHash := if segment.1 = 0 then none else some prevKey
  tokenIds := tokenIds request segment.1 segment.2.1
  blockSize := segment.2.1 - segment.1
  loraId := none
  medium := device.getD "cpu".toList
  loraName := none

def kvEventsFrom (request : CacheRequest) (device : Option (List Char)) :
    ℤ → List (ℕ × ℕ × EngineKey F) → List CacheStoreEvent
  | _, [] => []
  | prevKey, segment :: segments =>
      kvEvent request device prevKey segment ::
        kvEventsFrom request device segment.2.2.chunkHash segments

inductive KvRequest (F : Type) where
  | store (request : CacheRequest) (mask : Option (List Bool)) (configs : Option (RequestConfigs F))
      (allocations : Allocations)
  | storeLayer (tokens : List ℕ) (mask : Option (List Bool))
      (configs : Option (RequestConfigs F)) (present : LayerEngineKey F → Bool)
      (allocations : Allocations)

structure KvCall (F E D : Type) where
  engine : StoreEngine F E
  request : KvRequest F
  kv : ℕ → ℕ × ℕ → D
  device : Option (List Char)
  handed : ℕ → List Char → ℕ

def layerAnnounced (py : StoreBuiltins F D) (engine : StoreEngine F E) (tokens : List ℕ)
    (mask : Option (List Bool)) (configs : Option (RequestConfigs F))
    (present : LayerEngineKey F → Bool) (allocations : Allocations) :
    List (ℕ × ℕ × EngineKey F) :=
  if !engine.healthy || engine.frozen then []
  else
    match engine.normalizeConfigs py.toBuiltins configs (some tokens) none none with
    | .error _ => []
    | .ok (configs, level) =>
        match engine.layerTargets py tokens mask configs level with
        | .error _ => []
        | .ok (_, keysBySpan) =>
            match engine.segmentsOf (.tokens tokens) mask configs with
            | .error _ => []
            | .ok segments =>
                match engine.allocateLayerChunks keysBySpan present allocations.chunk 0
                  segments with
                | (stored, some (.keyMissing _ _)) => stored.chunks.dropLast
                | (stored, _) => stored.chunks

def KvRequest.cacheRequest : KvRequest F → CacheRequest
  | .store request _ _ _ => request
  | .storeLayer tokens _ _ _ _ => .tokens tokens

namespace KvCall

variable (py : StoreBuiltins F D) (c : KvCall F E D)

def announced : List (ℕ × ℕ × EngineKey F) :=
  match c.request with
  | .store request mask configs allocations =>
      (c.engine.store py request mask configs allocations (c.kv 0)).allocated
  | .storeLayer tokens mask configs present allocations =>
      layerAnnounced py c.engine tokens mask configs present allocations

def kvEvents : List CacheStoreEvent :=
  kvEventsFrom c.request.cacheRequest c.device 0 (c.announced py)

def exec (queue : List CacheStoreEvent) (c : KvCall F E D) : List CacheStoreEvent :=
  queue ++ c.kvEvents py

def selects (location : Option (List Char)) (name : List Char) : Bool :=
  location.getD [] == [] || location == some name

def handedKeys {K : Type} (events : List (StoreEvent K D)) (i : ℕ) : List K :=
  match events[i]? with
  | some (.put location keys _) =>
      (c.engine.storageBackends.filter (selects location)).flatMap fun name =>
        keys.take (c.handed i name)
  | _ => []

def EndsAt (tokens : List ℕ) (stop : ℕ) (hashVal : ℤ) : Prop :=
  ∃ segments, c.engine.spans (.tokens tokens) none = .ok segments ∧
    ∃ start, (start, stop, hashVal) ∈ segments

structure Describes (tokens : List ℕ) (segment : ℕ × ℕ × EngineKey F) (event : CacheStoreEvent) :
    Prop where
  block : event.blockHashes = [segment.2.2.chunkHash]
  ids : event.tokenIds = (slice tokens segment.1 segment.2.1).map Int.ofNat
  size : event.tokenIds.length = event.blockSize
  first : segment.1 = 0 → event.parentBlockHash = none
  parent : segment.1 ≠ 0 → ∃ parent, c.EndsAt tokens segment.1 parent ∧
    event.parentBlockHash = some parent

def HandsOver (segment : ℕ × ℕ × EngineKey F) : Prop :=
  match c.request with
  | .store request mask configs allocations => ∃ i, ∃ key ∈
      c.handedKeys (c.engine.store py request mask configs allocations (c.kv 0)).events i,
        key.chunkHash = segment.2.2.chunkHash
  | .storeLayer tokens mask configs present allocations => ∀ layerId < c.engine.numLayers,
      ∃ i, ∃ key ∈ c.handedKeys (c.engine.storeLayer py tokens mask configs present allocations
        c.kv).events i, key.layerId = layerId ∧ key.chunkHash = segment.2.2.chunkHash

def Described (events : List CacheStoreEvent) : Prop :=
  List.Forall₂ (fun segment event => (∃ tokens, c.request.cacheRequest = .tokens tokens ∧
      c.Describes tokens segment event) ∧ c.HandsOver py segment) (c.announced py) events

def DescribedRun : List (KvCall F E D) → List CacheStoreEvent → Prop
  | [], queue => queue = []
  | c :: calls, queue => ∃ events rest, queue = events ++ rest ∧ c.Described py events ∧
      DescribedRun calls rest

def Takes (i : ℕ) (location : Option (List Char)) : Prop :=
  ∃ name ∈ c.engine.storageBackends, selects location name = true ∧ 0 < c.handed i name

def EndsTokens (tokens : List ℕ) (segment : ℕ × ℕ × EngineKey F) : Prop :=
  segment.2.1 = tokens.length ∧ (segment.1 = 0 ∨ c.EndsAt tokens segment.1 0)

def PutsChunk (level : Option FidelityLevel) (allocations : Allocations) : Prop :=
  if c.engine.shouldDualStoreBase level then
    ∃ targets, c.engine.dualStoreTargets py = .ok targets ∧
      c.engine.encodes c.engine.getDtypes (allocations.encoded 0 0) = true ∧
        (c.Takes 0 targets.2 ∨ c.Takes 1 targets.1)
  else
    (level = some .base →
      c.engine.encodes c.engine.getDtypes (allocations.encoded 0 0) = true) ∧
        c.Takes 0 c.engine.storeLocation

def PutsLayers (level : Option FidelityLevel) (allocations : Allocations) : Prop :=
  if c.engine.shouldDualStoreBase level then
    c.engine.numLayers = 1 ∧ ∃ targets, c.engine.dualStoreTargets py = .ok targets ∧
      c.engine.encodes [c.engine.metadata.kvDtype] (allocations.encoded 0 0) = true ∧
        (c.Takes 0 targets.2 ∨ c.Takes 1 targets.1)
  else ∀ layerId < c.engine.numLayers,
    (level = some .base → c.engine.encodes [c.engine.metadata.kvDtype]
      (allocations.encoded layerId 0) = true) ∧ c.Takes layerId c.engine.storeLocation

def Covered : Prop :=
  match c.request with
  | .store request mask configs allocations =>
      c.engine.healthy = true → c.engine.passive = false → c.engine.frozen = false →
        ∀ level segments, c.engine.storeSelection py.toBuiltins request configs mask =
          .ok (level, segments) →
          chunksAllocated allocations.chunk 0 segments.length = 0 ∨
            ∃ tokens segment, request = .tokens tokens ∧ segments = [segment] ∧
              c.EndsTokens tokens segment ∧ c.PutsChunk py level allocations
  | .storeLayer tokens mask configs present allocations =>
      c.engine.healthy = true → c.engine.frozen = false → c.engine.numLayers ≠ 0 →
        ∀ level segments, c.engine.storeSelection py.toBuiltins (.tokens tokens) configs mask =
          .ok (level, segments) →
          (c.engine.shouldDualStoreBase level = true →
            ∃ targets, c.engine.dualStoreTargets py = .ok targets) →
          let missing := segments.filter fun segment => !present (layerKey 0 segment.2.2)
          chunksAllocated allocations.chunk 0 missing.length = 0 ∨
            ∃ segment, missing = [segment] ∧ c.EndsTokens tokens segment ∧
              c.PutsLayers py level allocations

variable {py c}

variable {tokens : List ℕ}

theorem slice_succ_eq_iff {start stop : ℕ} (hlt : start < stop) (hle : stop ≤ tokens.length) :
    slice tokens start (stop + 1) = slice tokens start stop ↔ stop = tokens.length := by
  constructor
  · intro heq
    by_contra hne
    have hlength := congrArg length heq
    rw [length_slice tokens (by omega), length_slice tokens hle] at hlength
    omega
  · rintro rfl
    rw [slice, slice, take_of_length_le (Nat.le_succ _), take_length]

theorem describes_kvEvent_iff {segment : ℕ × ℕ × EngineKey F} (hlt : segment.1 < segment.2.1)
    (hle : segment.2.1 ≤ tokens.length) (device : Option (List Char)) (prevKey : ℤ) :
    c.Describes tokens segment (kvEvent (.tokens tokens) device prevKey segment) ↔
      segment.2.1 = tokens.length ∧ (segment.1 = 0 ∨ c.EndsAt tokens segment.1 prevKey) := by
  constructor
  · intro h
    have hids := (map_injective_iff.mpr Int.ofNat_injective) h.ids
    refine ⟨(slice_succ_eq_iff hlt hle).mp hids, ?_⟩
    by_cases hzero : segment.1 = 0
    · exact .inl hzero
    · obtain ⟨parent, hends, hparent⟩ := h.parent hzero
      rw [kvEvent, if_neg hzero] at hparent
      exact .inr (Option.some.inj hparent ▸ hends)
  · rintro ⟨hstop, hparent⟩
    have hids : (kvEvent (.tokens tokens) device prevKey segment).tokenIds =
        (slice tokens segment.1 segment.2.1).map Int.ofNat :=
      congrArg (map Int.ofNat) ((slice_succ_eq_iff hlt hle).mpr hstop)
    refine ⟨rfl, hids, ?_, fun hzero => if_pos hzero, fun hne => ?_⟩
    · rw [hids, length_map, length_slice tokens hle]
      rfl
    · exact ⟨prevKey, hparent.resolve_left hne, if_neg hne⟩

structure Fits {K : Type} (tokens : List ℕ) (segments : List (ℕ × ℕ × K)) : Prop where
  bounds : ∀ segment ∈ segments, segment.1 < segment.2.1 ∧ segment.2.1 ≤ tokens.length
  ordered : segments.Pairwise fun a b => a.2.1 < b.2.1

variable {engine : StoreEngine F E} {segments : List (ℕ × ℕ × ℤ)}

theorem fits_spans {mask : Option (List Bool)}
    (hspans : engine.spans (.tokens tokens) mask = .ok segments) : Fits tokens segments := by
  refine ⟨fun segment hsegment => ?_,
    (engine.tokenDatabase.consecutive_of_processTokens hspans).pairwise_lt⟩
  obtain ⟨skipped, _, rfl⟩ := engine.tokenDatabase.processTokens_ok hspans
  obtain ⟨chunkId, hchunk, rfl⟩ := mem_map.mp hsegment
  have hbounds := mem_range'_1.mp hchunk
  have hstart := (engine.tokenDatabase.lt_numChunks_iff tokens chunkId).mp (by omega)
  have hle := engine.tokenDatabase.effectiveLen_le tokens
  have hpos := engine.tokenDatabase.chunkSizePos
  dsimp only
  rw [ChunkedTokenDatabase.endIdx]
  omega

theorem Fits.sublist {K : Type} {segments segments' : List (ℕ × ℕ × K)} (h : Fits tokens segments)
    (hsub : segments'.Sublist segments) : Fits tokens segments' :=
  ⟨fun segment hsegment => h.bounds segment (hsub.subset hsegment), h.ordered.sublist hsub⟩

theorem Fits.map {K : Type} (emit : ℤ → K) (h : Fits tokens segments) :
    Fits tokens (segments.map (keyed emit)) :=
  ⟨fun segment hsegment => by
    obtain ⟨span, hspan, rfl⟩ := mem_map.mp hsegment
    exact h.bounds span hspan, pairwise_map.mpr h.ordered⟩

theorem Fits.tail_eq_nil {K : Type} {segment : ℕ × ℕ × K} {segments : List (ℕ × ℕ × K)}
    (h : Fits tokens (segment :: segments)) (hstop : segment.2.1 = tokens.length) :
    segments = [] := by
  cases segments with
  | nil => rfl
  | cons later segments =>
    have hlater := rel_of_pairwise_cons h.ordered mem_cons_self
    have hbound := h.bounds later (mem_cons_of_mem _ mem_cons_self)
    omega

theorem described_events_iff {request : CacheRequest} {announced : List (ℕ × ℕ × EngineKey F)}
    (hfits : ∀ tokens, request = .tokens tokens → Fits tokens announced)
    (device : Option (List Char)) (H : ℕ × ℕ × EngineKey F → Prop) :
    List.Forall₂ (fun segment event =>
        (∃ tokens, request = .tokens tokens ∧ c.Describes tokens segment event) ∧ H segment)
        announced (kvEventsFrom request device 0 announced) ↔
      announced = [] ∨ ∃ tokens segment, request = .tokens tokens ∧ announced = [segment] ∧
        c.EndsTokens tokens segment ∧ H segment := by
  cases announced with
  | nil => simp [kvEventsFrom]
  | cons segment announced =>
    rw [kvEventsFrom, forall₂_cons, or_iff_right (cons_ne_nil _ _)]
    cases request with
    | hashes hs offs => simp
    | tokens ts =>
      have hbounds := (hfits ts rfl).bounds segment mem_cons_self
      simp only [CacheRequest.tokens.injEq, exists_eq_left',
        describes_kvEvent_iff hbounds.1 hbounds.2]
      cases announced with
      | nil =>
        simp only [kvEventsFrom, List.Forall₂.nil, and_true, cons.injEq, EndsTokens,
          existsAndEq, true_and]
      | cons later announced =>
        refine iff_of_false (fun h => ?_) (by simp)
        exact cons_ne_nil _ _ ((hfits ts rfl).tail_eq_nil h.1.1.1)

theorem mem_handedKeys_iff {K : Type} {events : List (StoreEvent K D)} {i : ℕ} {key other : K}
    {location : Option (List Char)} {memoryObjs : List D}
    (hput : events[i]? = some (.put location [key] memoryObjs)) :
    other ∈ c.handedKeys events i ↔ other = key ∧ c.Takes i location := by
  simp only [handedKeys, hput, mem_flatMap, mem_filter, Takes]
  constructor
  · rintro ⟨name, ⟨hname, hselects⟩, hother⟩
    cases hhanded : c.handed i name with
    | zero =>
      rw [hhanded] at hother
      cases hother
    | succ n =>
      rw [hhanded, take_succ_cons, take_nil] at hother
      exact ⟨mem_singleton.mp hother, name, hname, hselects, hhanded ▸ Nat.succ_pos n⟩
  · rintro ⟨rfl, name, hname, hselects, hpos⟩
    refine ⟨name, ⟨hname, hselects⟩, ?_⟩
    obtain ⟨n, hn⟩ := Nat.exists_eq_succ_of_ne_zero (Nat.pos_iff_ne_zero.mp hpos)
    rw [hn, take_succ_cons]
    exact mem_cons_self

theorem put_of_handedKeys {K : Type} {events : List (StoreEvent K D)} {i : ℕ} {key : K}
    (h : key ∈ c.handedKeys events i) :
    ∃ location keys memoryObjs, .put location keys memoryObjs ∈ events ∧ key ∈ keys := by
  rw [handedKeys] at h
  cases hevent : events[i]? with
  | none =>
    rw [hevent] at h
    cases h
  | some event =>
    rw [hevent] at h
    cases event with
    | remove location keys => cases h
    | put location keys memoryObjs =>
      obtain ⟨name, _, hmem⟩ := mem_flatMap.mp h
      exact ⟨location, keys, memoryObjs, mem_of_getElem? hevent, mem_of_mem_take hmem⟩

section Handed

variable {K : Type} {P : K → Prop} {key fullKey : K} {location base full : Option (List Char)}
  {memoryObjs fullObjs : List D}

theorem handed_nil : ¬ ∃ i, ∃ key ∈ c.handedKeys ([] : List (StoreEvent K D)) i, P key := by
  rintro ⟨_, _, hmem, _⟩
  cases hmem

theorem handed_put_iff (hkey : P key) :
    (∃ i, ∃ other ∈ c.handedKeys [.put location [key] memoryObjs] i, P other) ↔
      c.Takes 0 location := by
  have hput : [StoreEvent.put location [key] memoryObjs][0]? = _ := rfl
  constructor
  · rintro ⟨i, other, hmem, _⟩
    cases i with
    | zero => exact ((mem_handedKeys_iff hput).mp hmem).2
    | succ i => cases hmem
  · exact fun htakes => ⟨0, key, (mem_handedKeys_iff hput).mpr ⟨rfl, htakes⟩, hkey⟩

theorem handed_dual_iff (hkey : P key) (hfull : P fullKey) :
    (∃ i, ∃ other ∈ c.handedKeys [.put full [fullKey] fullObjs, .put base [key] memoryObjs] i,
      P other) ↔ c.Takes 0 full ∨ c.Takes 1 base := by
  have hfirst : [StoreEvent.put full [fullKey] fullObjs, .put base [key] memoryObjs][0]? = _ := rfl
  have hsecond : [StoreEvent.put full [fullKey] fullObjs, .put base [key] memoryObjs][1]? = _ := rfl
  constructor
  · rintro ⟨i, other, hmem, _⟩
    match i with
    | 0 => exact .inl ((mem_handedKeys_iff hfirst).mp hmem).2
    | 1 => exact .inr ((mem_handedKeys_iff hsecond).mp hmem).2
    | i + 2 => cases hmem
  · rintro (htakes | htakes)
    · exact ⟨0, fullKey, (mem_handedKeys_iff hfirst).mpr ⟨rfl, htakes⟩, hfull⟩
    · exact ⟨1, key, (mem_handedKeys_iff hsecond).mpr ⟨rfl, htakes⟩, hkey⟩

theorem handed_append_iff (puts : List (StoreEvent K D)) {removals : List (StoreEvent K D)}
    (hremovals : ∀ event ∈ removals, ∃ location keys, event = .remove location keys) :
    (∃ i, ∃ key ∈ c.handedKeys (puts ++ removals) i, P key) ↔
      ∃ i, ∃ key ∈ c.handedKeys puts i, P key := by
  refine exists_congr fun i => ?_
  by_cases hlt : i < puts.length
  · rw [handedKeys, handedKeys, getElem?_append_left hlt]
  · refine iff_of_false ?_ ?_
    · rintro ⟨key, hmem, _⟩
      rw [handedKeys, getElem?_append_right (Nat.not_lt.mp hlt)] at hmem
      cases hevent : removals[i - puts.length]? with
      | none =>
        rw [hevent] at hmem
        cases hmem
      | some event =>
        obtain ⟨location, keys, rfl⟩ := hremovals event (mem_of_getElem? hevent)
        rw [hevent] at hmem
        cases hmem
    · rintro ⟨key, hmem, _⟩
      rw [handedKeys, getElem?_eq_none (Nat.not_lt.mp hlt)] at hmem
      cases hmem

end Handed

theorem removals_of_cleanup {request : CacheRequest} {mask : Option (List Bool)}
    {configs : Option (RequestConfigs F)} {level : Option FidelityLevel}
    {removals : List (StoreEvent (EngineKey F) D)}
    (h : engine.cleanupBaseVariant py request mask configs level = .ok removals) :
    ∀ event ∈ removals, ∃ location keys, event = .remove location keys := by
  have hnil : (.ok [] : Except (StoreError F) (List (StoreEvent (EngineKey F) D))) = .ok removals →
      ∀ event ∈ removals, ∃ location keys, event = .remove location keys := by
    intro heq event hevent
    rw [← Except.ok.inj heq] at hevent
    cases hevent
  rw [cleanupBaseVariant] at h
  split_ifs at h with hcleanup
  · cases hlocation : engine.resolveFidelityStoreLocation py engine.storeBaseTarget false with
    | error error =>
      rw [hlocation] at h
      cases h
    | ok target =>
      obtain ⟨location, targetOk⟩ := target
      rw [hlocation] at h
      cases targetOk with
      | false => exact hnil h
      | true =>
        cases hkeys : engine.buildVariantKeys request mask configs .base with
        | error error =>
          simp only [hkeys, bind, Except.bind] at h
          cases h
        | ok keys =>
          simp only [hkeys, bind, Except.bind] at h
          cases keys with
          | nil => exact hnil h
          | cons key keys =>
            intro event hevent
            rw [← Except.ok.inj h] at hevent
            exact ⟨_, _, mem_singleton.mp hevent⟩
  · exact hnil h

theorem encodes_one {dtypes : List Utils.TorchDtype} {allocated : ℕ → Bool}
    (h : engine.encodes dtypes (allocated 0) = true) {memoryObj : D} (i : ℕ)
    (hi : i < [memoryObj].length) : engine.encodes dtypes (allocated i) = true := by
  obtain rfl := Nat.lt_one_iff.mp hi
  exact h

section Store

variable {request : CacheRequest} {mask : Option (List Bool)} {configs : Option (RequestConfigs F)}
  {allocations : Allocations} {level : Option FidelityLevel}
  {normalized : Option (RequestConfigs F)}

theorem allocated_store
    (hserving : (!c.engine.healthy || c.engine.passive || c.engine.frozen) = false)
    (hconfigs : c.engine.normalizeConfigs py.toBuiltins configs request.tokens? request.hashes?
      request.offsets? = .ok (normalized, level))
    (hspans : c.engine.spans request mask = .ok segments) (kv : ℕ × ℕ → D) :
    (c.engine.store py request mask configs allocations kv).allocated =
      (segments.take (chunksAllocated allocations.chunk 0 segments.length)).map
        (keyed (c.engine.makeKeyByHash normalized)) := by
  rw [store, hserving, hconfigs]
  simp only [Bool.false_eq_true, if_false, segmentsOf_eq, hspans, Except.mapError, Except.map,
    allocateChunks_eq, length_map, map_take]
  split_ifs with hempty
  · exact (isEmpty_iff.mp hempty).symm
  · split
    · rfl
    · split
      · rfl
      · rfl

theorem handsOver_store_iff
    (hserving : (!c.engine.healthy || c.engine.passive || c.engine.frozen) = false)
    {span : ℕ × ℕ × ℤ}
    (hconfigs : c.engine.normalizeConfigs py.toBuiltins configs request.tokens? request.hashes?
      request.offsets? = .ok (normalized, level))
    (hspans : c.engine.spans request mask = .ok [span]) (hallocated : allocations.chunk 0 = true)
    (kv : ℕ × ℕ → D) :
    (∃ i, ∃ key ∈ c.handedKeys (c.engine.store py request mask configs allocations kv).events i,
        key.chunkHash = span.2.2) ↔ c.PutsChunk py level allocations := by
  rw [store, hserving, hconfigs, PutsChunk]
  simp only [Bool.false_eq_true, if_false, segmentsOf_eq, hspans, Except.mapError, Except.map,
    allocateChunks, hallocated, if_true, map_cons, map_nil, isEmpty_cons, storePuts,
    buildVariantKeys, keyed]
  by_cases hdual : c.engine.shouldDualStoreBase level = true
  · rw [if_pos hdual, if_pos hdual]
    have hlevel := level_of_shouldDualStoreBase hdual
    cases htargets : c.engine.dualStoreTargets py with
    | error error => exact iff_of_false handed_nil (by simp)
    | ok targets =>
      simp only [bind, Except.bind, length_singleton, ne_eq, not_true, if_false,
        Except.ok.injEq, exists_eq_left']
      cases hencodes : c.engine.encodes c.engine.getDtypes (allocations.encoded 0 0) with
      | false =>
        have hlt : 0 < [kv (span.1, span.2.1)].length := Nat.one_pos
        obtain ⟨error, herror⟩ := dualPuts_error py hlt hencodes targets.1 targets.2
          [c.engine.makeKeyByHash normalized span.2.2]
          [c.engine.makeKeyByHash (c.engine.requestConfigsForLevel normalized .full) span.2.2]
        rw [herror]
        exact iff_of_false handed_nil (by simp)
      | true =>
        rw [dualPuts_ok (encodes_one hencodes), hlevel, cleanupBaseVariant_base]
        dsimp only
        rw [append_nil, and_iff_right rfl]
        exact handed_dual_iff (P := fun key : EngineKey F => key.chunkHash = span.2.2) rfl rfl
  · rw [if_neg hdual, if_neg hdual]
    by_cases hencodes : level = some .base → c.engine.encodes c.engine.getDtypes
      (allocations.encoded 0 0) = true
    · obtain ⟨objs, hputs⟩ := singlePuts_ok py (fun hlevel => encodes_one (hencodes hlevel))
        [c.engine.makeKeyByHash normalized span.2.2]
      rw [hputs, and_iff_right hencodes]
      have hput : (∃ i, ∃ key ∈ c.handedKeys [StoreEvent.put c.engine.storeLocation
          [c.engine.makeKeyByHash normalized span.2.2] objs] i, key.chunkHash = span.2.2) ↔
            c.Takes 0 c.engine.storeLocation :=
        handed_put_iff (P := fun key : EngineKey F => key.chunkHash = span.2.2) rfl
      cases hremovals : c.engine.cleanupBaseVariant py request mask normalized level with
      | error error => exact hput
      | ok removals => exact (handed_append_iff _ (removals_of_cleanup hremovals)).trans hput
    · rw [Classical.not_imp] at hencodes
      obtain ⟨rfl, hencodes⟩ := hencodes
      have hlt : 0 < [kv (span.1, span.2.1)].length := Nat.one_pos
      obtain ⟨error, herror⟩ := singlePuts_error py hlt (eq_false_of_ne_true hencodes)
        [c.engine.makeKeyByHash normalized span.2.2]
      rw [herror]
      exact iff_of_false handed_nil fun h => hencodes (h.1 rfl)

variable {allocated : ℕ → Bool}

theorem chunksAllocated_one (h : chunksAllocated allocated 0 1 ≠ 0) : allocated 0 = true := by
  by_contra hfails
  rw [chunksAllocated, if_neg hfails] at h
  exact h rfl

theorem map_take_ne_nil {A B : Type} {xs : List A} {f : A → B}
    (h : chunksAllocated allocated 0 xs.length ≠ 0) :
    (xs.take (chunksAllocated allocated 0 xs.length)).map f ≠ [] := by
  intro hnil
  have hlength := congrArg length hnil
  rw [length_map, length_take_of_le (chunksAllocated_le _ _ _)] at hlength
  exact h hlength

theorem take_eq_singleton_iff (hfits : Fits tokens segments) {emit : ℤ → EngineKey F}
    {segment : ℕ × ℕ × EngineKey F} (hstop : segment.2.1 = tokens.length)
    (hsome : chunksAllocated allocated 0 segments.length ≠ 0) :
    (segments.take (chunksAllocated allocated 0 segments.length)).map (keyed emit) = [segment] ↔
      segments.map (keyed emit) = [segment] := by
  cases segments with
  | nil => exact absurd rfl hsome
  | cons span segments =>
    obtain ⟨n, hn⟩ := Nat.exists_eq_succ_of_ne_zero hsome
    have hnil : (span.1, span.2.1, emit span.2.2) = segment → segments = [] := by
      rintro rfl
      exact hfits.tail_eq_nil hstop
    rw [hn, take_succ_cons, map_cons, map_cons, cons.injEq, cons.injEq]
    refine and_congr_right fun heq => ?_
    rw [hnil heq, take_nil]

theorem described_store_iff (hrequest : c.request = .store request mask configs allocations) :
    c.Described py (c.kvEvents py) ↔ c.Covered py := by
  rw [Described, kvEvents, announced, Covered]
  simp only [HandsOver, hrequest, KvRequest.cacheRequest]
  cases hserving : !c.engine.healthy || c.engine.passive || c.engine.frozen with
  | true =>
    rw [store, hserving]
    refine iff_of_true .nil fun hhealthy hpassive hfrozen => ?_
    rw [hhealthy, hpassive, hfrozen] at hserving
    cases hserving
  | false =>
    cases hconfigs : c.engine.normalizeConfigs py.toBuiltins configs request.tokens?
      request.hashes? request.offsets? with
    | error error =>
      rw [store, hserving, hconfigs, storeSelection_error_of_configs hconfigs]
      refine iff_of_true .nil fun _ _ _ _ _ hselection => ?_
      cases hselection
    | ok pair =>
      obtain ⟨normalized, level⟩ := pair
      rw [storeSelection_eq_spans hconfigs]
      cases hspans : c.engine.spans request mask with
      | error message =>
        rw [store, hserving, hconfigs]
        simp only [segmentsOf_eq, hspans]
        refine iff_of_true .nil fun _ _ _ _ _ hselection => ?_
        cases hselection
      | ok segments =>
        have hfits : ∀ tokens, request = .tokens tokens → Fits tokens segments := by
          rintro tokens rfl
          exact fits_spans hspans
        rw [allocated_store hserving hconfigs hspans, described_events_iff fun tokens htokens =>
          ((hfits tokens htokens).sublist (take_sublist _ _)).map _]
        simp only [Bool.or_eq_false_iff, Bool.not_eq_eq_eq_not, Bool.not_false] at hserving
        rw [forall_prop_of_true hserving.1.1, forall_prop_of_true hserving.1.2,
          forall_prop_of_true hserving.2]
        simp only [Except.mapError, Except.map, Except.ok.injEq, Prod.mk.injEq, and_imp,
          forall_apply_eq_imp_iff, forall_eq']
        rw [length_map]
        by_cases hnone : chunksAllocated allocations.chunk 0 segments.length = 0
        · rw [hnone]
          exact iff_of_true (.inl rfl) (.inl rfl)
        rw [or_iff_right (map_take_ne_nil hnone), or_iff_right hnone]
        refine exists₂_congr fun tokens segment => and_congr_right fun htokens => ?_
        constructor
        · rintro ⟨hstored, hends, hhanded⟩
          have hsegments := (take_eq_singleton_iff (hfits tokens htokens) hends.1 hnone).mp hstored
          obtain ⟨span, rfl, rfl⟩ := map_eq_singleton_iff.mp hsegments
          exact ⟨rfl, hends, (handsOver_store_iff (by simp [hserving]) hconfigs hspans
            (chunksAllocated_one hnone) (c.kv 0)).mp hhanded⟩
        · rintro ⟨hsegments, hends, hputs⟩
          have hstored := (take_eq_singleton_iff (hfits tokens htokens) hends.1 hnone).mpr hsegments
          obtain ⟨span, rfl, rfl⟩ := map_eq_singleton_iff.mp hsegments
          exact ⟨hstored, hends, (handsOver_store_iff (by simp [hserving]) hconfigs hspans
            (chunksAllocated_one hnone) (c.kv 0)).mpr hputs⟩

end Store

end KvCall

end StoreEngine

end LMCache.Fidelity
