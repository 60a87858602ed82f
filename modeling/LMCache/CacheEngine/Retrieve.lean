import LMCache.StorageBackend.ActiveBackends
import LMCache.TokenDatabase

namespace LMCache

open List Nat

structure ChunkInfo (K : Type) where
  key : K
  start : ℕ
  stop : ℕ
deriving DecidableEq

structure ProcessedChunk (K O : Type) where
  key : K
  memoryObj : O
  start : ℕ
  stop : ℕ
deriving DecidableEq

structure LoadingBackend (K O : Type) where
  batchedContains : List K → ℕ
  batchedGetBlocking : List K → List (Option O)

namespace BackendTable

variable {K O : Type}

def mapBlocks (chunkInfos : List (ChunkInfo K)) : List (String × LoadingBackend K O) → List K →
    ℕ → List (String × List (ChunkInfo K))
  | [], _, _ => []
  | (backendName, backend) :: rest, keys, totalHitChunks =>
      let hitChunks := backend.batchedContains keys
      if hitChunks = 0 then mapBlocks chunkInfos rest keys totalHitChunks
      else
        (backendName, Slice.slice chunkInfos totalHitChunks (totalHitChunks + hitChunks)) ::
          if totalHitChunks + hitChunks = chunkInfos.length then []
          else mapBlocks chunkInfos rest (keys.drop hitChunks) (totalHitChunks + hitChunks)

def getBlockMapping (table : BackendTable (LoadingBackend K O)) (chunkInfos : List (ChunkInfo K)) :
    List (String × List (ChunkInfo K)) :=
  mapBlocks chunkInfos (table.getActiveStorageBackends none none) (chunkInfos.map ChunkInfo.key) 0

def batchedGet (table : BackendTable (LoadingBackend K O)) (keys : List K)
    (location : Option String) : List (Option O) :=
  ((table.getActiveStorageBackends location none).findSome? fun p =>
    let memoryObjs := p.2.batchedGetBlocking keys
    if memoryObjs.isEmpty then none else some memoryObjs).getD (replicate keys.length none)

end BackendTable

variable (mask : List Bool)

def markSpan (start stop : ℕ) : List Bool :=
  mask.mapIdx fun pos marked => marked || decide (start ≤ pos ∧ pos < stop)

def clearFrom (start : ℕ) : List Bool :=
  mask.mapIdx fun pos marked => marked && decide (pos < start)

structure RetrieveState (K O : Type) where
  totKvSize : ℕ
  reorderedChunks : List (ProcessedChunk K O)
  retMask : List Bool
  lastFailedBlockStart : Option ℕ
deriving DecidableEq

structure RetrieveEngine (H E K O : Type) where
  tokenDatabase : ChunkedTokenDatabase H E
  makeKeyByHash : H → K
  storageManager : BackendTable (LoadingBackend K O)
  pinnedLocation : Option String
  getSize : O → ℕ
  decodeMemoryObj : O → O

namespace RetrieveEngine

variable {H E K O : Type}

def noteFailure (lastFailedBlockStart : Option ℕ) (start : ℕ) : Option ℕ :=
  match lastFailedBlockStart with
  | none => some start
  | some last => if last < start then some start else some last

def loadBlock (engine : RetrieveEngine H E K O) :
    List (ChunkInfo K × Option O) → RetrieveState K O → RetrieveState K O
  | [], st => st
  | (info, none) :: _, st =>
      { st with lastFailedBlockStart := noteFailure st.lastFailedBlockStart info.start }
  | (info, some memoryObj) :: rest, st =>
      loadBlock engine rest
        { st with
          totKvSize := st.totKvSize + engine.getSize memoryObj
          reorderedChunks := st.reorderedChunks ++
            [⟨info.key, engine.decodeMemoryObj memoryObj, info.start, info.stop⟩]
          retMask := markSpan st.retMask info.start info.stop }

variable (engine : RetrieveEngine H E K O)

def blockPairs (block : String × List (ChunkInfo K)) : List (ChunkInfo K × Option O) :=
  block.2.zip (engine.storageManager.batchedGet (block.2.map ChunkInfo.key) (some block.1))

def blockMapping (chunkInfos : List (ChunkInfo K)) : List (String × List (ChunkInfo K)) :=
  match engine.pinnedLocation with
  | some location => [(location, chunkInfos)]
  | none => engine.storageManager.getBlockMapping chunkInfos

def cutBack (st : RetrieveState K O) : RetrieveState K O :=
  match st.lastFailedBlockStart with
  | none => st
  | some last =>
      { st with
        retMask := clearFrom st.retMask last
        reorderedChunks := st.reorderedChunks.filter fun c => decide (c.stop < last) }

def loadBlocks (chunkInfos : List (ChunkInfo K)) (retMask : List Bool) : RetrieveState K O :=
  (engine.blockMapping chunkInfos).foldl (fun st block => engine.loadBlock (engine.blockPairs block) st)
    ⟨0, [], retMask, none⟩

def chunkInfosOf (segments : List (ℕ × ℕ × K)) : List (ChunkInfo K) :=
  segments.map fun segment => ⟨segment.2.2, segment.1, segment.2.1⟩

def processTokensInternal (tokens : List ℕ) (mask : Option (List Bool)) (retMask : List Bool) :
    Except String (RetrieveState K O) :=
  (engine.tokenDatabase.processTokens engine.makeKeyByHash (some tokens) none none mask).map
    fun segments => cutBack (engine.loadBlocks (chunkInfosOf segments) retMask)

def zeros (tokens : List ℕ) : List Bool := replicate tokens.length false

end RetrieveEngine

variable {H E K O : Type}

inductive Reached : List (ChunkInfo K × Option O) → ChunkInfo K → Option O → Prop
  | head {info res rest} : Reached ((info, res) :: rest) info res
  | tail {info memoryObj rest info' res} : Reached rest info' res →
      Reached ((info, some memoryObj) :: rest) info' res

variable {res : Option O}

theorem not_reached_nil {info : ChunkInfo K} : ¬ Reached [] info res := by
  intro h
  cases h

variable {rest : List (ChunkInfo K × Option O)}

theorem reached_none_iff {info info' : ChunkInfo K} :
    Reached ((info, none) :: rest) info' res ↔ info' = info ∧ res = none := by
  constructor
  · intro h
    cases h
    exact ⟨rfl, rfl⟩
  · rintro ⟨rfl, rfl⟩
    exact .head

theorem reached_some_iff {info info' : ChunkInfo K} {memoryObj : O} :
    Reached ((info, some memoryObj) :: rest) info' res ↔
      (info' = info ∧ res = some memoryObj) ∨ Reached rest info' res := by
  constructor
  · intro h
    cases h with
    | head => exact .inl ⟨rfl, rfl⟩
    | tail h => exact .inr h
  · rintro (⟨rfl, rfl⟩ | h)
    · exact .head
    · exact .tail h

theorem Reached.mem {pairs : List (ChunkInfo K × Option O)} {info : ChunkInfo K}
    (h : Reached pairs info res) : (info, res) ∈ pairs := by
  induction h with
  | head => exact mem_cons_self
  | tail _ ih => exact mem_cons_of_mem _ ih

theorem getElem?_markSpan (start stop pos : ℕ) :
    (markSpan mask start stop)[pos]? = some true ↔
      mask[pos]? = some true ∨ pos < mask.length ∧ start ≤ pos ∧ pos < stop := by
  rw [markSpan, getElem?_mapIdx]
  rcases lt_or_ge pos mask.length with hlt | hge
  · simp [hlt]
  · simp [not_lt.mpr hge]

theorem getElem?_clearFrom (start pos : ℕ) :
    (clearFrom mask start)[pos]? = some true ↔ mask[pos]? = some true ∧ pos < start := by
  rw [clearFrom, getElem?_mapIdx]
  rcases lt_or_ge pos mask.length with hlt | hge
  · simp [getElem?_eq_getElem hlt]
  · simp [getElem?_eq_none hge]

theorem length_markSpan (start stop : ℕ) :
    (markSpan mask start stop).length = mask.length := length_mapIdx

theorem prefix_mapBlocks (chunkInfos : List (ChunkInfo K))
    (backends : List (String × LoadingBackend K O)) (keys : List K) (total : ℕ) :
    (BackendTable.mapBlocks chunkInfos backends keys total).flatMap Prod.snd <+:
      chunkInfos.drop total := by
  induction backends generalizing keys total with
  | nil => exact nil_prefix
  | cons p backends ih =>
    obtain ⟨backendName, backend⟩ := p
    simp only [BackendTable.mapBlocks]
    split_ifs with hzero hall
    · exact ih keys total
    · rw [flatMap_cons, flatMap_nil, append_nil, Slice.slice, drop_take]
      exact take_prefix _ _
    · obtain ⟨rest, hrest⟩ := ih (keys.drop (backend.batchedContains keys))
        (total + backend.batchedContains keys)
      refine ⟨rest, ?_⟩
      rw [flatMap_cons, append_assoc, hrest, Slice.slice, drop_take,
        Nat.add_sub_cancel_left, ← drop_drop, take_append_drop]

namespace RetrieveEngine

variable {engine : RetrieveEngine H E K O} {chunkInfos : List (ChunkInfo K)}

def processed (engine : RetrieveEngine H E K O) (info : ChunkInfo K) (memoryObj : O) :
    ProcessedChunk K O :=
  ⟨info.key, engine.decodeMemoryObj memoryObj, info.start, info.stop⟩

structure Tracks (engine : RetrieveEngine H E K O) (attempted : ChunkInfo K → Option O → Prop)
    (length : ℕ) (st : RetrieveState K O) : Prop where
  chunks : ∀ c, c ∈ st.reorderedChunks ↔
    ∃ info memoryObj, attempted info (some memoryObj) ∧ c = engine.processed info memoryObj
  length_eq : st.retMask.length = length
  marked : ∀ pos : ℕ, st.retMask[pos]? = some true ↔ pos < length ∧
    ∃ info memoryObj, attempted info (some memoryObj) ∧ info.start ≤ pos ∧ pos < info.stop
  last_le : ∀ info, attempted info none → ∃ last ∈ st.lastFailedBlockStart, info.start ≤ last
  last_mem : ∀ last ∈ st.lastFailedBlockStart, ∃ info, attempted info none ∧ info.start = last

variable {attempted attempted' : ChunkInfo K → Option O → Prop} {length : ℕ}
  {st : RetrieveState K O}

theorem Tracks.congr (h : engine.Tracks attempted length st)
    (hiff : ∀ info res, attempted info res ↔ attempted' info res) :
    engine.Tracks attempted' length st := by
  have heq : attempted = attempted' := funext fun info => funext fun res => propext (hiff info res)
  exact heq ▸ h

theorem tracks_start (length : ℕ) :
    engine.Tracks (fun _ _ => False) length ⟨0, [], replicate length false, none⟩ where
  chunks c := by simp
  length_eq := length_replicate
  marked pos := by simp [getElem?_replicate]
  last_le info h := h.elim
  last_mem last h := absurd h (by simp)

theorem Tracks.failed (h : engine.Tracks attempted length st) (info : ChunkInfo K) :
    engine.Tracks (fun info' res => attempted info' res ∨ (info' = info ∧ res = none)) length
      { st with lastFailedBlockStart := noteFailure st.lastFailedBlockStart info.start } where
  chunks c := by simpa using h.chunks c
  length_eq := h.length_eq
  marked pos := by simpa using h.marked pos
  last_le info' hinfo := by
    have hnoted : ∃ last ∈ noteFailure st.lastFailedBlockStart info.start, info.start ≤ last ∧
        ∀ last' ∈ st.lastFailedBlockStart, last' ≤ last := by
      cases hlast : st.lastFailedBlockStart with
      | none => exact ⟨info.start, rfl, le_refl _, fun _ h => absurd h (by simp)⟩
      | some last =>
        by_cases hlt : last < info.start
        · refine ⟨info.start, by simp [noteFailure, hlt], le_refl _, fun last' h => ?_⟩
          rw [← Option.some.inj h]
          exact le_of_lt hlt
        · refine ⟨last, by simp [noteFailure, hlt], Nat.le_of_not_lt hlt, fun last' h => ?_⟩
          rw [← Option.some.inj h]
    obtain ⟨last, hmem, hle, hall⟩ := hnoted
    refine ⟨last, hmem, ?_⟩
    rcases hinfo with hold | ⟨rfl, -⟩
    · obtain ⟨last', hlast', hle'⟩ := h.last_le info' hold
      exact hle'.trans (hall last' hlast')
    · exact hle
  last_mem last hmem := by
    change last ∈ noteFailure st.lastFailedBlockStart info.start at hmem
    cases hlast : st.lastFailedBlockStart with
    | none =>
      rw [hlast] at hmem
      exact ⟨info, .inr ⟨rfl, rfl⟩, Option.some.inj hmem⟩
    | some last' =>
      rw [hlast] at hmem
      by_cases hlt : last' < info.start
      · exact ⟨info, .inr ⟨rfl, rfl⟩, by simpa [noteFailure, hlt] using hmem⟩
      · obtain ⟨info', hinfo', hstart⟩ := h.last_mem last' hlast
        exact ⟨info', .inl hinfo', by simpa [noteFailure, hlt, hstart] using hmem⟩

theorem Tracks.loaded (h : engine.Tracks attempted length st) (info : ChunkInfo K)
    (memoryObj : O) :
    engine.Tracks (fun info' res => attempted info' res ∨ (info' = info ∧ res = some memoryObj))
      length { st with
        totKvSize := st.totKvSize + engine.getSize memoryObj
        reorderedChunks := st.reorderedChunks ++ [engine.processed info memoryObj]
        retMask := markSpan st.retMask info.start info.stop } where
  chunks c := by
    rw [mem_append, mem_singleton, h.chunks]
    constructor
    · rintro (⟨info', memoryObj', hold, rfl⟩ | rfl)
      · exact ⟨info', memoryObj', .inl hold, rfl⟩
      · exact ⟨info, memoryObj, .inr ⟨rfl, rfl⟩, rfl⟩
    · rintro ⟨info', memoryObj', hold | ⟨rfl, hobj⟩, rfl⟩
      · exact .inl ⟨info', memoryObj', hold, rfl⟩
      · obtain rfl := Option.some.inj hobj
        exact .inr rfl
  length_eq := by rw [length_markSpan, h.length_eq]
  marked pos := by
    rw [getElem?_markSpan, h.marked, h.length_eq]
    constructor
    · rintro (⟨hlt, info', memoryObj', hold, hspan⟩ | ⟨hlt, hspan⟩)
      · exact ⟨hlt, info', memoryObj', .inl hold, hspan⟩
      · exact ⟨hlt, info, memoryObj, .inr ⟨rfl, rfl⟩, hspan⟩
    · rintro ⟨hlt, info', memoryObj', hold | ⟨rfl, -⟩, hspan⟩
      · exact .inl ⟨hlt, info', memoryObj', hold, hspan⟩
      · exact .inr ⟨hlt, hspan⟩
  last_le info' hinfo := by
    rcases hinfo with hold | ⟨-, hres⟩
    · exact h.last_le info' hold
    · exact absurd hres (by simp)
  last_mem last hmem := by
    obtain ⟨info', hold, hstart⟩ := h.last_mem last hmem
    exact ⟨info', .inl hold, hstart⟩

theorem Tracks.loadBlock (h : engine.Tracks attempted length st)
    (pairs : List (ChunkInfo K × Option O)) :
    engine.Tracks (fun info res => attempted info res ∨ Reached pairs info res) length
      (engine.loadBlock pairs st) := by
  induction pairs generalizing attempted st with
  | nil => exact h.congr fun info res => by simp [not_reached_nil]
  | cons p pairs ih =>
    obtain ⟨info, _ | memoryObj⟩ := p
    · exact (h.failed info).congr fun info' res => by rw [reached_none_iff]
    · exact (ih (h.loaded info memoryObj)).congr fun info' res => by
        rw [reached_some_iff, or_assoc]

def Attempted (engine : RetrieveEngine H E K O) (chunkInfos : List (ChunkInfo K))
    (info : ChunkInfo K) (res : Option O) : Prop :=
  ∃ block ∈ engine.blockMapping chunkInfos, Reached (engine.blockPairs block) info res

def Loads (engine : RetrieveEngine H E K O) (chunkInfos : List (ChunkInfo K))
    (info : ChunkInfo K) : Prop :=
  ∃ memoryObj, engine.Attempted chunkInfos info (some memoryObj)

def Fails (engine : RetrieveEngine H E K O) (chunkInfos : List (ChunkInfo K))
    (info : ChunkInfo K) : Prop :=
  engine.Attempted chunkInfos info none

theorem tracks_foldl {blocks : List (String × List (ChunkInfo K))}
    (h : engine.Tracks attempted length st) :
    engine.Tracks (fun info res => attempted info res ∨
        ∃ block ∈ blocks, Reached (engine.blockPairs block) info res) length
      (blocks.foldl (fun st block => engine.loadBlock (engine.blockPairs block) st) st) := by
  induction blocks generalizing attempted st with
  | nil => exact h.congr fun info res => by simp
  | cons block blocks ih =>
    exact (ih (h.loadBlock (engine.blockPairs block))).congr fun info res => by
      rw [exists_mem_cons_iff, or_assoc]

theorem tracks_loadBlocks (tokens : List ℕ) :
    engine.Tracks (engine.Attempted chunkInfos) tokens.length
      (engine.loadBlocks chunkInfos (zeros tokens)) :=
  (tracks_foldl (tracks_start tokens.length)).congr fun info res => by rw [false_or]; rfl

theorem prefix_blockMapping (engine : RetrieveEngine H E K O) (chunkInfos : List (ChunkInfo K)) :
    (engine.blockMapping chunkInfos).flatMap Prod.snd <+: chunkInfos := by
  rw [blockMapping]
  cases engine.pinnedLocation with
  | none => exact prefix_mapBlocks _ _ _ 0
  | some location => simp

theorem sublist_flatMap_blockPairs (engine : RetrieveEngine H E K O)
    (blocks : List (String × List (ChunkInfo K))) :
    ((blocks.flatMap engine.blockPairs).map Prod.fst).Sublist (blocks.flatMap Prod.snd) := by
  induction blocks with
  | nil => exact .refl _
  | cons block blocks ih =>
    rw [flatMap_cons, map_append, flatMap_cons]
    refine List.Sublist.append ?_ ih
    rw [blockPairs, zip_eq_zip_take_min, map_fst_zip (by simp)]
    exact take_sublist _ _

variable {info : ChunkInfo K}

theorem Attempted.mem (h : engine.Attempted chunkInfos info res) :
    (info, res) ∈ (engine.blockMapping chunkInfos).flatMap engine.blockPairs := by
  obtain ⟨block, hblock, hreached⟩ := h
  exact mem_flatMap.mpr ⟨block, hblock, hreached.mem⟩

theorem Attempted.mem_chunkInfos (h : engine.Attempted chunkInfos info res) : info ∈ chunkInfos :=
  (engine.prefix_blockMapping chunkInfos).subset
    ((engine.sublist_flatMap_blockPairs _).subset (mem_map_of_mem h.mem))

structure Spaced (chunkInfos : List (ChunkInfo K)) : Prop where
  nonempty : ∀ info ∈ chunkInfos, info.start < info.stop
  apart : chunkInfos.Pairwise fun a b => a.stop ≤ b.start

variable {segments : List (ℕ × ℕ × K)}

theorem mem_chunkInfosOf :
    info ∈ chunkInfosOf segments ↔ (info.start, info.stop, info.key) ∈ segments := by
  rw [chunkInfosOf, mem_map]
  constructor
  · rintro ⟨segment, hmem, rfl⟩
    exact hmem
  · intro hmem
    exact ⟨_, hmem, rfl⟩

variable {start stop : ℕ}

theorem le_start_of_consecutive (h : ChunkedTokenDatabase.Consecutive start stop segments) :
    ∀ info ∈ chunkInfosOf segments, start ≤ info.start := by
  induction segments generalizing start with
  | nil => exact fun _ hmem => absurd hmem not_mem_nil
  | cons segment segments ih =>
    obtain ⟨s, e, key⟩ := segment
    obtain ⟨rfl, hlt, hrest⟩ := h
    intro info hmem
    rcases mem_cons.mp hmem with rfl | hmem
    · exact le_refl _
    · exact (le_of_lt hlt).trans (ih hrest info hmem)

theorem spaced_of_consecutive (h : ChunkedTokenDatabase.Consecutive start stop segments) :
    Spaced (chunkInfosOf segments) := by
  induction segments generalizing start with
  | nil => exact ⟨fun _ hmem => absurd hmem not_mem_nil, .nil⟩
  | cons segment segments ih =>
    obtain ⟨s, e, key⟩ := segment
    obtain ⟨rfl, hlt, hrest⟩ := h
    have hspaced := ih hrest
    refine ⟨fun info hmem => ?_, .cons (le_start_of_consecutive hrest) hspaced.apart⟩
    rcases mem_cons.mp hmem with rfl | hmem
    · exact hlt
    · exact hspaced.nonempty info hmem

theorem run_of_consecutive (h : ChunkedTokenDatabase.Consecutive start stop segments)
    {P : ChunkInfo K → Prop}
    (hdown : ∀ a ∈ chunkInfosOf segments, P a → ∀ b ∈ chunkInfosOf segments,
      b.start < a.start → P b) :
    ∃ reached, ∀ pos, (∃ info ∈ chunkInfosOf segments, P info ∧ info.start ≤ pos ∧
      pos < info.stop) ↔ start ≤ pos ∧ pos < reached := by
  induction segments generalizing start with
  | nil =>
    refine ⟨start, fun pos => ?_⟩
    constructor
    · rintro ⟨info, hmem, -⟩
      exact absurd hmem not_mem_nil
    · intro hpos
      omega
  | cons segment segments ih =>
    obtain ⟨s, e, key⟩ := segment
    obtain ⟨rfl, hlt, hrest⟩ := h
    have hcons : chunkInfosOf ((s, e, key) :: segments) = ⟨key, s, e⟩ :: chunkInfosOf segments := rfl
    rw [hcons] at hdown ⊢
    by_cases hP : P ⟨key, s, e⟩
    · obtain ⟨reached, hreached⟩ := ih hrest fun a ha hPa b hb =>
        hdown a (mem_cons_of_mem _ ha) hPa b (mem_cons_of_mem _ hb)
      refine ⟨max e reached, fun pos => ?_⟩
      rw [exists_mem_cons_iff, hreached]
      simp only [hP, true_and]
      omega
    · refine ⟨s, fun pos => ?_⟩
      constructor
      · rintro ⟨info, hmem, hPinfo, -⟩
        rcases mem_cons.mp hmem with rfl | htail
        · exact absurd hPinfo hP
        · have hearlier : s < info.start :=
            lt_of_lt_of_le hlt (le_start_of_consecutive hrest info htail)
          exact absurd (hdown info hmem hPinfo ⟨key, s, e⟩ mem_cons_self hearlier) hP
      · intro hpos
        omega

namespace Spaced

variable {a b : ChunkInfo K}

theorem cases (h : Spaced chunkInfos) (ha : a ∈ chunkInfos) (hb : b ∈ chunkInfos) :
    a = b ∨ a.stop ≤ b.start ∨ b.stop ≤ a.start := by
  obtain ⟨i, hi, rfl⟩ := getElem_of_mem ha
  obtain ⟨j, hj, rfl⟩ := getElem_of_mem hb
  have hapart := pairwise_iff_getElem.mp h.apart
  rcases lt_trichotomy i j with hlt | rfl | hgt
  · exact .inr (.inl (hapart i j hi hj hlt))
  · exact .inl rfl
  · exact .inr (.inr (hapart j i hj hi hgt))

theorem stop_le_start (h : Spaced chunkInfos) (ha : a ∈ chunkInfos) (hb : b ∈ chunkInfos)
    (hlt : a.start < b.start) : a.stop ≤ b.start := by
  rcases h.cases ha hb with rfl | hle | hle
  · exact absurd hlt (lt_irrefl _)
  · exact hle
  · have hnonempty := h.nonempty b hb
    omega

theorem eq_of_overlap (h : Spaced chunkInfos) {pos : ℕ} (ha : a ∈ chunkInfos)
    (hb : b ∈ chunkInfos) (hpa : a.start ≤ pos ∧ pos < a.stop)
    (hpb : b.start ≤ pos ∧ pos < b.stop) : a = b := by
  rcases h.cases ha hb with heq | hle | hle
  · exact heq
  · omega
  · omega

end Spaced

end RetrieveEngine

end LMCache
