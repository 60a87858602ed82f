import LMCache.Integration.ConnectorStep
import Mathlib.Algebra.Order.Ring.Nat

namespace LMCache

open List Nat

theorem lt_cdiv_iff {i n chunkSize : ℕ} (hpos : 0 < chunkSize) :
    i < cdiv n chunkSize ↔ i * chunkSize < n := by
  rw [cdiv, lt_div_iff_mul_lt hpos]
  omega

namespace StoreCall

variable {chunkSize : ℕ} {call : StoreCall}

theorem mem_chunks (hpos : 0 < chunkSize) {chunk : ℕ × ℕ} :
    chunk ∈ call.chunks chunkSize ↔
      (∃ i, i * chunkSize < call.tokenIds.length ∧ chunk =
        (i * chunkSize, min (i * chunkSize + chunkSize) call.tokenIds.length)) ∧
        call.mask[chunk.1]? = some true := by
  rw [chunks, mem_filter, mem_map, beq_iff_eq]
  refine and_congr_left fun _ => ?_
  constructor
  · rintro ⟨i, hi, rfl⟩
    exact ⟨i, (lt_cdiv_iff hpos).mp (mem_range.mp hi), rfl⟩
  · rintro ⟨i, hi, rfl⟩
    exact ⟨i, mem_range.mpr ((lt_cdiv_iff hpos).mpr hi), rfl⟩

end StoreCall

namespace WorkerConfig

variable {config : WorkerConfig}

theorem getElem?_maskFrom (length skipped i : ℕ) :
    (maskFrom length skipped)[i]? = some true ↔ i < length ∧ skipped ≤ i := by
  rw [maskFrom, getElem?_map, Option.map_eq_some_iff]
  constructor
  · rintro ⟨j, hj, hskip⟩
    obtain ⟨hlt, rfl⟩ := List.getElem?_eq_some_iff.mp hj
    rw [length_range] at hlt
    rw [getElem_range, decide_eq_true_eq] at hskip
    exact ⟨hlt, hskip⟩
  · rintro ⟨hlt, hskip⟩
    exact ⟨i, getElem?_range hlt, decide_eq_true hskip⟩

theorem alignDown_le (n : ℕ) : config.alignDown n ≤ n := div_mul_le_self n config.chunkSize

theorem storeLen_le (request : ReqMeta) : config.storeLen request ≤ request.tokenIds.length := by
  rw [storeLen]
  split_ifs
  · exact le_rfl
  · exact alignDown_le _

theorem exists_chunk_after (saveSpec : SaveSpec) (request : ReqMeta) (n t : ℕ) :
    (∃ call, (config.storeRequest saveSpec request (config.alignDown n)).call = some call ∧
        ∃ chunk ∈ call.chunks config.chunkSize, t < chunk.2) ↔
      config.alignDown n < config.storeLen request ∧ t < config.storeLen request := by
  have hpos := config.chunkSizePos
  have hle := config.storeLen_le request
  simp only [storeRequest, Option.some.injEq, exists_eq_left', StoreCall.mem_chunks hpos,
    length_take, min_eq_left hle]
  constructor
  · rintro ⟨chunk, ⟨⟨i, hi, rfl⟩, hmask⟩, ht⟩
    dsimp only at hmask ht
    rw [getElem?_take, if_pos hi, getElem?_maskFrom] at hmask
    omega
  · rintro ⟨hskip, ht⟩
    generalize config.storeLen request = stop at *
    have hlast : (stop - 1) / config.chunkSize * config.chunkSize ≤ stop - 1 :=
      div_mul_le_self _ _
    have hend : stop - 1 < (stop - 1) / config.chunkSize * config.chunkSize + config.chunkSize :=
      lt_div_mul_add hpos
    have hfirst : config.alignDown n ≤ (stop - 1) / config.chunkSize * config.chunkSize := by
      refine mul_le_mul_right _ ((le_div_iff_mul_le hpos).mpr ?_)
      exact le_sub_one_of_lt hskip
    refine ⟨_, ⟨⟨(stop - 1) / config.chunkSize, by omega, rfl⟩, ?_⟩, ?_⟩
    · rw [getElem?_take, if_pos (by omega), getElem?_maskFrom]
      exact ⟨by omega, hfirst⟩
    · dsimp only
      omega

variable (config)
variable (request : ReqMeta)

def Missing (retMask : List Bool) (t : ℕ) : Prop :=
  ∃ loadSpec, loads request = some loadSpec ∧ loadSpec.vllmCachedTokens ≤ t ∧
    t < loadSpec.lmcacheCachedTokens ∧ retMask[t]? ≠ some true

variable (invalidBlockIds : Finset ℕ) (entries : List (ReqMeta × List Bool))

def stepSaves : List SavedRequest :=
  match config.startLoadKv invalidBlockIds entries with
  | .error _ => []
  | .ok _ => (config.waitForSave (entries.map Prod.fst)).1

def Unpoisoned : Prop :=
  ∀ (i : ℕ) (entry : ReqMeta × List Bool), entries[i]? = some entry →
    ∀ t, Missing entry.1 entry.2 t → ∀ saved,
      (config.stepSaves invalidBlockIds entries)[i]? = some saved →
        ∀ call, saved.call = some call → ∀ chunk ∈ call.chunks config.chunkSize, chunk.2 ≤ t

def Savable : Prop :=
  config.maySave request = true →
    request.slotMapping.length = request.tokenIds.length ∧ request.saveSpec.isSome

def Reached (i : ℕ) : Prop :=
  (∀ entry ∈ entries, (loads entry.1).isSome →
    entry.1.tokenIds.length = entry.1.slotMapping.length) ∧
    ∀ entry ∈ entries.take (i + 1), config.Savable entry.1

def Spared (t : ℕ) : Prop :=
  config.kvRole = .consumer ∨ config.maySave request = false ∨
    ∀ saveSpec, request.saveSpec = some saveSpec →
      config.skipLeadingTokens saveSpec request = request.tokenIds.length ∨
        config.storeLen request ≤ config.alignDown (config.skipLeadingTokens saveSpec request) ∨
          config.storeLen request ≤ t

theorem loadRequest_ok_iff (retMask : List Bool) (request : ReqMeta) :
    (∃ blocks, config.loadRequest retMask request = .ok blocks) ↔
      ((loads request).isSome → request.tokenIds.length = request.slotMapping.length) := by
  rw [loadRequest]
  cases loads request with
  | none => exact ⟨fun _ h => absurd h (by simp), fun _ => ⟨_, rfl⟩⟩
  | some loadSpec =>
    dsimp only
    split_ifs with hlen
    · exact ⟨fun ⟨_, h⟩ => (by cases h), fun h => absurd (h rfl) hlen⟩
    · exact ⟨fun _ _ => not_not.mp hlen, fun _ => ⟨_, rfl⟩⟩
    · exact ⟨fun _ _ => not_not.mp hlen, fun _ => ⟨_, rfl⟩⟩

theorem startLoadKv_ok_iff :
    (∃ blocks, config.startLoadKv invalidBlockIds entries = .ok blocks) ↔
      ∀ entry ∈ entries, (loads entry.1).isSome →
        entry.1.tokenIds.length = entry.1.slotMapping.length := by
  induction entries generalizing invalidBlockIds with
  | nil => exact ⟨fun _ _ h => absurd h not_mem_nil, fun _ => ⟨_, rfl⟩⟩
  | cons entry entries ih =>
    obtain ⟨request, retMask⟩ := entry
    rw [forall_mem_cons, ← config.loadRequest_ok_iff retMask, startLoadKv]
    cases config.loadRequest retMask request with
    | error e => exact ⟨fun ⟨_, h⟩ => (by cases h), fun ⟨⟨_, h⟩, _⟩ => (by cases h)⟩
    | ok blocks => exact (ih _).trans (and_iff_right ⟨blocks, rfl⟩).symm

theorem saveRequest_ok_iff :
    (∃ saved, config.saveRequest request = .ok saved) ↔ config.Savable request := by
  rw [saveRequest, Savable]
  cases config.maySave request with
  | false => exact ⟨fun _ h => absurd h Bool.false_ne_true, fun _ => ⟨_, rfl⟩⟩
  | true =>
    rw [Bool.not_true, if_neg Bool.false_ne_true]
    split_ifs with hlen
    · exact ⟨fun ⟨_, h⟩ => (by cases h), fun h => absurd (h rfl).1 hlen⟩
    · cases request.saveSpec with
      | none => exact ⟨fun ⟨_, h⟩ => (by cases h), fun h => absurd (h rfl).2 (by simp)⟩
      | some saveSpec =>
        dsimp only
        split_ifs
        · exact ⟨fun _ _ => ⟨not_not.mp hlen, rfl⟩, fun _ => ⟨_, rfl⟩⟩
        · exact ⟨fun _ _ => ⟨not_not.mp hlen, rfl⟩, fun _ => ⟨_, rfl⟩⟩

variable {config}

theorem getElem?_saveRequests (requests : List ReqMeta) (i : ℕ) (saved : SavedRequest) :
    (config.saveRequests requests).1[i]? = some saved ↔
      (∃ request, requests[i]? = some request ∧ config.saveRequest request = .ok saved) ∧
        ∀ request ∈ requests.take (i + 1), config.Savable request := by
  induction requests generalizing i with
  | nil => simp [saveRequests]
  | cons request requests ih =>
    rw [saveRequests, take_succ_cons, forall_mem_cons, ← config.saveRequest_ok_iff request]
    cases hsave : config.saveRequest request with
    | error e => exact ⟨fun h => (by cases h), fun ⟨_, ⟨_, h⟩, _⟩ => (by cases h)⟩
    | ok first =>
      cases i with
      | zero => simp [hsave]
      | succ i => simpa using ih i

theorem poisoned_iff (t : ℕ) (hsavable : config.Savable request)
    (hrole : config.kvRole ≠ .consumer) :
    (∃ saved, config.saveRequest request = .ok saved ∧ ∃ call, saved.call = some call ∧
        ∃ chunk ∈ call.chunks config.chunkSize, t < chunk.2) ↔ ¬ config.Spared request t := by
  rw [Spared, not_or, not_or, and_iff_right hrole, Bool.not_eq_false, saveRequest]
  cases hmay : config.maySave request with
  | false =>
    rw [Bool.not_false, if_pos rfl]
    refine ⟨fun ⟨saved, hsaved, call, hcall, _⟩ => ?_, fun ⟨h, _⟩ => absurd h Bool.false_ne_true⟩
    obtain rfl := Except.ok.inj hsaved
    cases hcall
  | true =>
    obtain ⟨hlen, hspec⟩ := hsavable hmay
    obtain ⟨saveSpec, hspec⟩ := Option.isSome_iff_exists.mp hspec
    rw [Bool.not_true, if_neg Bool.false_ne_true, if_neg (not_not.mpr hlen), hspec,
      and_iff_right rfl]
    simp only [Option.some.injEq, forall_eq', not_or, not_le]
    split_ifs with hskip
    · refine ⟨fun ⟨saved, hsaved, call, hcall, _⟩ => ?_, fun h => absurd hskip h.1⟩
      obtain rfl := Except.ok.inj hsaved
      cases hcall
    · rw [and_iff_right hskip, ← exists_chunk_after saveSpec request]
      exact ⟨fun ⟨saved, hsaved, h⟩ => Except.ok.inj hsaved ▸ h, fun h => ⟨_, rfl, h⟩⟩

theorem getElem?_stepSaves {i : ℕ} {entry : ReqMeta × List Bool} (hentry : entries[i]? = some entry)
    (saved : SavedRequest) :
    (config.stepSaves invalidBlockIds entries)[i]? = some saved ↔
      config.kvRole ≠ .consumer ∧ config.saveRequest entry.1 = .ok saved ∧
        config.Reached entries i := by
  have htake : (∀ request ∈ (entries.map Prod.fst).take (i + 1), config.Savable request) ↔
      ∀ entry ∈ entries.take (i + 1), config.Savable entry.1 := by
    rw [← map_take]
    exact forall_mem_map
  rw [Reached, ← config.startLoadKv_ok_iff invalidBlockIds, stepSaves]
  cases config.startLoadKv invalidBlockIds entries with
  | error e => exact ⟨fun h => by simp at h, fun ⟨_, _, ⟨_, h⟩, _⟩ => (by cases h)⟩
  | ok blocks =>
    dsimp only
    rw [waitForSave]
    split_ifs with hrole
    · exact ⟨fun h => by simp at h, fun h => absurd hrole h.1⟩
    · rw [getElem?_saveRequests, htake, getElem?_map, hentry]
      simp [hrole]

theorem unpoisoned_iff (config : WorkerConfig) (invalidBlockIds : Finset ℕ)
    (entries : List (ReqMeta × List Bool)) :
    config.Unpoisoned invalidBlockIds entries ↔
      ∀ (i : ℕ) (entry : ReqMeta × List Bool), entries[i]? = some entry → config.Reached entries i →
        ∀ t, Missing entry.1 entry.2 t → config.Spared entry.1 t := by
  refine forall_congr' fun i => forall_congr' fun entry => imp_congr_right fun hentry => ?_
  simp only [getElem?_stepSaves invalidBlockIds entries hentry]
  constructor
  · intro hclean hreached t hmissing
    by_contra hspared
    have hrole : config.kvRole ≠ .consumer := fun h => hspared (.inl h)
    have hsavable : config.Savable entry.1 := hreached.2 entry
      (mem_of_getElem? ((getElem?_take_of_lt i.lt_succ_self).trans hentry))
    obtain ⟨saved, hsaved, call, hcall, chunk, hchunk, ht⟩ :=
      (poisoned_iff entry.1 t hsavable hrole).mpr hspared
    exact absurd (hclean t hmissing saved ⟨hrole, hsaved, hreached⟩ call hcall chunk hchunk)
      (not_le.mpr ht)
  · rintro hspared t hmissing saved ⟨hrole, hsaved, hreached⟩ call hcall chunk hchunk
    have hsavable : config.Savable entry.1 := (config.saveRequest_ok_iff entry.1).mp ⟨saved, hsaved⟩
    by_contra hlate
    exact (poisoned_iff entry.1 t hsavable hrole).mp
      ⟨saved, hsaved, call, hcall, chunk, hchunk, Nat.lt_of_not_le hlate⟩
      (hspared hreached t hmissing)

def chunksOfFour : WorkerConfig := ⟨.both, 4, 4, false, true, succ_pos 3⟩

def hitOfOneChunk : RequestTracker :=
  .fromNewRequest ⟨range 12, [5, 6, 7], 0, [], false⟩ none 12 4 false

def lostHit : List (ReqMeta × List Bool) :=
  ((ReqMeta.fromRequestTracker ⟨4, 4, true, false, succ_pos 3, succ_pos 3⟩ hitOfOneChunk
    (some ⟨0, 4, true⟩)).1.map fun request => (request, replicate 4 false)).toList

theorem lostHit_poisons :
    chunksOfFour.startLoadKv ∅ lostHit = .ok {5} ∧ ¬ chunksOfFour.Unpoisoned ∅ lostHit := by
  refine ⟨by decide, fun h => ?_⟩
  have hentry : ∃ entry, lostHit[0]? = some entry ∧ Missing entry.1 entry.2 0 ∧
      ∃ saved, (chunksOfFour.stepSaves ∅ lostHit)[0]? = some saved ∧
        ∃ call, saved.call = some call ∧ (4, 8) ∈ call.chunks 4 :=
    ⟨_, rfl, ⟨_, rfl, by decide, by decide, by decide⟩, _, rfl, _, rfl, by decide⟩
  obtain ⟨entry, hget, hmissing, saved, hsaved, call, hcall, hchunk⟩ := hentry
  exact absurd (h 0 entry hget 0 hmissing saved hsaved call hcall (4, 8) hchunk) (by decide)

variable (config)
variable (loadSpec : LoadSpec)

def retrievedRun (numChunks : ℕ) : List Bool :=
  let first := config.alignDown loadSpec.vllmCachedTokens
  (range loadSpec.lmcacheCachedTokens).map fun i =>
    decide (first ≤ i ∧ i < first + numChunks * config.chunkSize)

def blockOf (request : ReqMeta) (t : ℕ) : Option ℕ :=
  request.slotMapping[t]?.map (· / config.blockSize)

def ReportsFailures (request : ReqMeta) (retMask : List Bool) : Prop :=
  ∃ blocks, config.loadRequest retMask request = .ok blocks ∧ ∀ block,
    block ∈ blocks ↔ ∃ t, Missing request retMask t ∧ config.blockOf request t = some block

def retrievedEnd (numChunks : ℕ) : ℕ :=
  min (config.alignDown loadSpec.vllmCachedTokens + numChunks * config.chunkSize)
    loadSpec.lmcacheCachedTokens

def FallsShort (numChunks : ℕ) : Prop :=
  config.retrievedEnd loadSpec numChunks + loadSpec.vllmCachedTokens <
    loadSpec.lmcacheCachedTokens + config.alignDown loadSpec.vllmCachedTokens

theorem count_interval (first stop n : ℕ) :
    ((range n).map fun i => decide (first ≤ i ∧ i < stop)).count true = min stop n - first := by
  induction n with
  | zero => simp
  | succ n ih =>
    rw [range_succ, map_append, count_append, ih, map_singleton, count_singleton]
    by_cases h : first ≤ n ∧ n < stop
    · simp only [h, and_self, decide_true, beq_self_eq_true, if_true]
      omega
    · rw [decide_eq_false h, if_neg (by decide)]
      omega

variable {config} {request : ReqMeta} {loadSpec : LoadSpec} {numChunks : ℕ}

theorem fallsShort_iff : config.FallsShort loadSpec numChunks ↔
    ((config.retrievedRun loadSpec numChunks).count true : ℤ) <
      loadSpec.lmcacheCachedTokens - loadSpec.vllmCachedTokens := by
  have hfirst := config.alignDown_le loadSpec.vllmCachedTokens
  rw [retrievedRun, count_interval, ← retrievedEnd, FallsShort]
  have hend : config.retrievedEnd loadSpec numChunks =
      min (config.alignDown loadSpec.vllmCachedTokens + numChunks * config.chunkSize)
        loadSpec.lmcacheCachedTokens := rfl
  omega

theorem missing_retrievedRun (hload : loads request = some loadSpec) (t : ℕ) :
    Missing request (config.retrievedRun loadSpec numChunks) t ↔
      loadSpec.vllmCachedTokens ≤ t ∧ t < loadSpec.lmcacheCachedTokens ∧
        config.retrievedEnd loadSpec numChunks ≤ t := by
  have hfirst := config.alignDown_le loadSpec.vllmCachedTokens
  simp only [Missing, hload, Option.some.injEq, exists_eq_left']
  refine and_congr_right fun hprefix => and_congr_right fun hcached => ?_
  simp only [retrievedRun, getElem?_map, getElem?_range hcached, Option.map_some, ne_eq,
    Option.some.injEq, decide_eq_true_eq, retrievedEnd]
  omega

theorem mem_recordFailedBlocks (hcached : loadSpec.lmcacheCachedTokens ≤ request.tokenIds.length)
    (block : ℕ) :
    block ∈ config.recordFailedBlocks
        ((maskFrom request.tokenIds.length (config.alignDown loadSpec.vllmCachedTokens)).take
          loadSpec.lmcacheCachedTokens)
        (config.retrievedRun loadSpec numChunks)
        (request.slotMapping.take loadSpec.lmcacheCachedTokens) ↔
      ∃ t, (config.alignDown loadSpec.vllmCachedTokens ≤ t ∧ t < loadSpec.lmcacheCachedTokens ∧
        config.retrievedEnd loadSpec numChunks ≤ t) ∧ config.blockOf request t = some block := by
  have hlen : ((maskFrom request.tokenIds.length (config.alignDown loadSpec.vllmCachedTokens)).take
      loadSpec.lmcacheCachedTokens).length = loadSpec.lmcacheCachedTokens := by
    simp [maskFrom, hcached]
  have hrun : (config.retrievedRun loadSpec numChunks).length = loadSpec.lmcacheCachedTokens := by
    simp [retrievedRun]
  rw [recordFailedBlocks, hlen, hrun, if_neg (not_not.mpr rfl)]
  split_ifs with hzero
  · simp [hzero]
  · simp only [mem_toFinset, mem_map, mem_filterMap, mem_filter, mem_range,
      Bool.and_eq_true, beq_iff_eq, blockOf, Option.map_eq_some_iff]
    constructor
    · rintro ⟨slot, ⟨t, ⟨ht, hexpected, hret⟩, hslot⟩, rfl⟩
      rw [getElem?_take, if_pos ht] at hexpected hslot
      simp only [retrievedRun, getElem?_map, getElem?_range ht, Option.map_some,
        Option.some.injEq, decide_eq_false_iff_not] at hret
      have hfirst := ((getElem?_maskFrom _ _ _).mp hexpected).2
      refine ⟨t, ⟨hfirst, ht, ?_⟩, slot, hslot, rfl⟩
      rw [retrievedEnd]
      omega
    · rintro ⟨t, ⟨hfirst, ht, hend⟩, slot, hslot, rfl⟩
      refine ⟨slot, ⟨t, ⟨ht, ?_, ?_⟩, ?_⟩, rfl⟩
      · rw [getElem?_take, if_pos ht, getElem?_maskFrom]
        exact ⟨ht.trans_le hcached, hfirst⟩
      · simp only [retrievedRun, getElem?_map, getElem?_range ht, Option.map_some,
          Option.some.injEq, decide_eq_false_iff_not]
        rw [retrievedEnd] at hend
        omega
      · rw [getElem?_take, if_pos ht, hslot]

theorem reportsFailures_iff (config : WorkerConfig) (request : ReqMeta) (loadSpec : LoadSpec)
    (numChunks : ℕ) (hload : loads request = some loadSpec)
    (hslots : request.tokenIds.length = request.slotMapping.length)
    (hcached : loadSpec.lmcacheCachedTokens ≤ request.tokenIds.length) :
    config.ReportsFailures request (config.retrievedRun loadSpec numChunks) ↔
      (config.FallsShort loadSpec numChunks → ∀ t, config.retrievedEnd loadSpec numChunks ≤ t →
        t < loadSpec.vllmCachedTokens → ∃ t', loadSpec.vllmCachedTokens ≤ t' ∧
          t' < loadSpec.lmcacheCachedTokens ∧
            config.blockOf request t' = config.blockOf request t) ∧
      (¬ config.FallsShort loadSpec numChunks → loadSpec.lmcacheCachedTokens ≤
        max loadSpec.vllmCachedTokens (config.retrievedEnd loadSpec numChunks)) := by
  have hfirst := config.alignDown_le loadSpec.vllmCachedTokens
  have hblock : ∀ t, t < loadSpec.lmcacheCachedTokens →
      ∃ block, config.blockOf request t = some block := fun t ht =>
    ⟨_, by rw [blockOf, getElem?_eq_getElem (hslots ▸ ht.trans_le hcached), Option.map_some]⟩
  simp only [ReportsFailures, loadRequest, hload, hslots, ne_eq, not_true_eq_false, if_false,
    missing_retrievedRun hload]
  rw [← hslots]
  by_cases hshort : config.FallsShort loadSpec numChunks
  · have hend : config.alignDown loadSpec.vllmCachedTokens ≤
        config.retrievedEnd loadSpec numChunks := by
      rw [FallsShort] at hshort
      rw [retrievedEnd] at hshort ⊢
      omega
    rw [if_pos (fallsShort_iff.mp hshort)]
    simp only [Except.ok.injEq, exists_eq_left', mem_recordFailedBlocks hcached, hshort,
      forall_const, not_true_eq_false, IsEmpty.forall_iff, and_true]
    constructor
    · intro hreport t ht hprefix
      rw [FallsShort] at hshort
      obtain ⟨block, hblock⟩ := hblock t (by omega)
      obtain ⟨t', ⟨h1, h2, _⟩, h3⟩ := (hreport block).mp ⟨t, ⟨by omega, by omega, ht⟩, hblock⟩
      exact ⟨t', h1, h2, h3.trans hblock.symm⟩
    · intro hshared block
      constructor
      · rintro ⟨t, ⟨_, hcached', ht⟩, hblock⟩
        rcases lt_or_ge t loadSpec.vllmCachedTokens with hlt | hge
        · obtain ⟨t', h1, h2, h3⟩ := hshared t ht hlt
          exact ⟨t', ⟨h1, h2, by omega⟩, h3.trans hblock⟩
        · exact ⟨t, ⟨hge, hcached', ht⟩, hblock⟩
      · rintro ⟨t, ⟨hbefore, hcached', ht⟩, hblock⟩
        exact ⟨t, ⟨hfirst.trans hbefore, hcached', ht⟩, hblock⟩
  · rw [if_neg (mt fallsShort_iff.mpr hshort)]
    simp only [Except.ok.injEq, exists_eq_left', hshort, IsEmpty.forall_iff, not_false_eq_true,
      forall_const, true_and, Finset.notMem_empty, false_iff, not_exists, not_and]
    constructor
    · intro hnone
      by_contra hlt
      rw [not_le, max_lt_iff] at hlt
      have hmax := max_lt hlt.1 hlt.2
      obtain ⟨block, hblock⟩ := hblock _ hmax
      exact hnone block _ ⟨le_max_left _ _, hmax, le_max_right _ _⟩ hblock
    · intro hle block t ht
      omega

def blocksOfTwo : WorkerConfig := ⟨.both, 2, 4, false, true, succ_pos 3⟩

def loadOfSix (loadSpec : LoadSpec) : ReqMeta :=
  ⟨range 6, range 6, true, none, some loadSpec, none⟩

theorem reportsFailures_wholePrompt : blocksOfTwo.ReportsFailures (loadOfSix ⟨0, 6, true⟩)
    (blocksOfTwo.retrievedRun ⟨0, 6, true⟩ 1) :=
  (reportsFailures_iff blocksOfTwo _ ⟨0, 6, true⟩ 1 rfl rfl (by decide)).mpr
    ⟨fun _ _ _ h => absurd h (not_lt_zero _), fun h => absurd (by unfold FallsShort; decide) h⟩

theorem not_reportsFailures_lostTail :
    ¬ ∀ (config : WorkerConfig) (request : ReqMeta) (loadSpec : LoadSpec) (numChunks : ℕ),
      config.blockSize ∣ config.chunkSize → config.blockSize ∣ loadSpec.vllmCachedTokens →
      loads request = some loadSpec → request.tokenIds.length = request.slotMapping.length →
      loadSpec.lmcacheCachedTokens ≤ request.tokenIds.length →
        config.ReportsFailures request (config.retrievedRun loadSpec numChunks) := by
  intro h
  obtain ⟨blocks, hload, hmem⟩ := h blocksOfTwo (loadOfSix ⟨2, 6, true⟩) ⟨2, 6, true⟩ 1
    (by decide) (by decide) rfl rfl (by decide)
  obtain rfl := Except.ok.inj hload
  exact absurd ((hmem 2).mpr ⟨4, ⟨_, rfl, by decide, by decide, by decide⟩, rfl⟩) (by decide)

end WorkerConfig

end LMCache
