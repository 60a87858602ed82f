import LMCache.CacheEngine.Retrieve

namespace LMCache

namespace RetrieveEngine

variable {H E K O : Type} {engine : RetrieveEngine H E K O} {chunkInfos : List (ChunkInfo K)}
  {tokens : List ℕ} {mask : Option (List Bool)} {st : RetrieveState K O} {m n : ℕ}

def InFront (engine : RetrieveEngine H E K O) (chunkInfos : List (ChunkInfo K)) (pos : ℕ) : Prop :=
  (∀ info, ¬ engine.Fails chunkInfos info) ∨ ∃ info, engine.Fails chunkInfos info ∧ pos < info.start

def FailsCleanly (engine : RetrieveEngine H E K O) (chunkInfos : List (ChunkInfo K)) : Prop :=
  ∀ info, engine.Loads chunkInfos info → engine.InFront chunkInfos info.start →
    engine.InFront chunkInfos info.stop ∧
      ∀ earlier ∈ chunkInfos, earlier.start < info.start → engine.Loads chunkInfos earlier

def unmaskedChunks (engine : RetrieveEngine H E K O) (tokens : List ℕ)
    (mask : Option (List Bool)) : List (ChunkInfo K) :=
  match engine.tokenDatabase.processTokens engine.makeKeyByHash (some tokens) none none mask with
  | .ok segments => chunkInfosOf segments
  | .error _ => []

structure Truthful (engine : RetrieveEngine H E K O) (tokens : List ℕ) (mask : Option (List Bool))
    (st : RetrieveState K O) : Prop where
  marked : ∀ pos : ℕ, st.retMask[pos]? = some true ↔
    ∃ c ∈ st.reorderedChunks, c.start ≤ pos ∧ pos < c.stop
  contiguous : ∃ stop, ∀ pos : ℕ, st.retMask[pos]? = some true ↔
    ChunkedTokenDatabase.numFalses mask ≤ pos ∧ pos < stop
  kept : ∀ info memoryObj,
    engine.Attempted (engine.unmaskedChunks tokens mask) info (some memoryObj) →
    (∀ failed, engine.Fails (engine.unmaskedChunks tokens mask) failed →
      info.start < failed.start) →
    engine.processed info memoryObj ∈ st.reorderedChunks

theorem InFront.mono (h : engine.InFront chunkInfos n) (hle : m ≤ n) :
    engine.InFront chunkInfos m := by
  rcases h with hnone | ⟨info, hfails, hlt⟩
  · exact .inl hnone
  · exact .inr ⟨info, hfails, Nat.lt_of_le_of_lt hle hlt⟩

variable {length : ℕ}

theorem Tracks.inFront_iff (h : engine.Tracks (engine.Attempted chunkInfos) length st) :
    engine.InFront chunkInfos n ↔ ∀ last ∈ st.lastFailedBlockStart, n < last := by
  constructor
  · rintro (hnone | ⟨info, hfails, hlt⟩) last hlast
    · obtain ⟨info, hfails, -⟩ := h.last_mem last hlast
      exact absurd hfails (hnone info)
    · obtain ⟨last', hlast', hle⟩ := h.last_le info hfails
      obtain rfl := Option.some.inj (hlast.symm.trans hlast')
      exact Nat.lt_of_lt_of_le hlt hle
  · intro hall
    cases hlast : st.lastFailedBlockStart with
    | none =>
      refine .inl fun info hfails => ?_
      obtain ⟨last, hmem, -⟩ := h.last_le info hfails
      rw [hlast] at hmem
      exact absurd hmem (by simp)
    | some last =>
      obtain ⟨info, hfails, rfl⟩ := h.last_mem last hlast
      exact .inr ⟨info, hfails, hall info.start hlast⟩

theorem Tracks.mem_cutBack (h : engine.Tracks (engine.Attempted chunkInfos) length st)
    {c : ProcessedChunk K O} :
    c ∈ (cutBack st).reorderedChunks ↔ ∃ info memoryObj,
      engine.Attempted chunkInfos info (some memoryObj) ∧ engine.InFront chunkInfos info.stop ∧
        c = engine.processed info memoryObj := by
  have hstop : c ∈ (cutBack st).reorderedChunks ↔
      c ∈ st.reorderedChunks ∧ ∀ last ∈ st.lastFailedBlockStart, c.stop < last := by
    rw [cutBack]
    cases st.lastFailedBlockStart with
    | none => simp
    | some last => simp
  rw [hstop, h.chunks, ← h.inFront_iff]
  constructor
  · rintro ⟨⟨info, memoryObj, hattempted, rfl⟩, hfront⟩
    exact ⟨info, memoryObj, hattempted, hfront, rfl⟩
  · rintro ⟨info, memoryObj, hattempted, hfront, rfl⟩
    exact ⟨⟨info, memoryObj, hattempted, rfl⟩, hfront⟩

theorem Tracks.marked_cutBack (h : engine.Tracks (engine.Attempted chunkInfos) length st)
    {pos : ℕ} :
    (cutBack st).retMask[pos]? = some true ↔ pos < length ∧ engine.InFront chunkInfos pos ∧
      ∃ info, engine.Loads chunkInfos info ∧ info.start ≤ pos ∧ pos < info.stop := by
  have hpos : (cutBack st).retMask[pos]? = some true ↔
      st.retMask[pos]? = some true ∧ ∀ last ∈ st.lastFailedBlockStart, pos < last := by
    rw [cutBack]
    cases st.lastFailedBlockStart with
    | none => simp
    | some last => simp [getElem?_clearFrom]
  rw [hpos, h.marked, ← h.inFront_iff]
  constructor
  · rintro ⟨⟨hlt, info, memoryObj, hattempted, hspan⟩, hfront⟩
    exact ⟨hlt, hfront, info, ⟨memoryObj, hattempted⟩, hspan⟩
  · rintro ⟨hlt, hfront, info, ⟨memoryObj, hattempted⟩, hspan⟩
    exact ⟨⟨hlt, info, memoryObj, hattempted, hspan⟩, hfront⟩

theorem stop_le_length {segments : List (ℕ × ℕ × K)}
    (h : engine.tokenDatabase.processTokens engine.makeKeyByHash (some tokens) none none mask =
      .ok segments) : ∀ info ∈ chunkInfosOf segments, info.stop ≤ tokens.length := by
  obtain ⟨skipped, -, rfl⟩ := engine.tokenDatabase.processTokens_ok h
  intro info hmem
  obtain ⟨chunkId, -, heq⟩ := List.mem_map.mp (mem_chunkInfosOf.mp hmem)
  rw [← (Prod.mk.inj (Prod.mk.inj heq).2).1]
  exact Nat.min_le_right _ _

theorem processTokensInternal_ok (h : engine.processTokensInternal tokens mask (zeros tokens) = .ok st) :
    ∃ segments, engine.tokenDatabase.processTokens engine.makeKeyByHash (some tokens) none none
        mask = .ok segments ∧ engine.unmaskedChunks tokens mask = chunkInfosOf segments ∧
      st = cutBack (engine.loadBlocks (chunkInfosOf segments) (zeros tokens)) := by
  rw [processTokensInternal] at h
  rw [unmaskedChunks]
  cases hsegments : engine.tokenDatabase.processTokens engine.makeKeyByHash (some tokens) none none
      mask with
  | error message =>
    rw [hsegments] at h
    exact absurd h (by simp [Except.map])
  | ok segments =>
    rw [hsegments] at h
    exact ⟨segments, rfl, rfl, (Except.ok.inj h).symm⟩

section Consecutive

variable {start : ℕ} {segments : List (ℕ × ℕ × K)}
  (hconsecutive : ChunkedTokenDatabase.Consecutive start stop segments)
  (hlength : ∀ info ∈ chunkInfosOf segments, info.stop ≤ tokens.length)
  (htracks : engine.Tracks (engine.Attempted (chunkInfosOf segments)) tokens.length st)

include hconsecutive htracks

theorem loads_of_marked (hmarked : ∀ pos : ℕ, (cutBack st).retMask[pos]? = some true ↔
      ∃ c ∈ (cutBack st).reorderedChunks, c.start ≤ pos ∧ pos < c.stop)
    {info : ChunkInfo K} (hinfo : info ∈ chunkInfosOf segments)
    (hfirst : (cutBack st).retMask[info.start]? = some true) :
    engine.Loads (chunkInfosOf segments) info ∧
      engine.InFront (chunkInfosOf segments) info.stop := by
  have hspaced := spaced_of_consecutive hconsecutive
  obtain ⟨c, hc, hspan⟩ := (hmarked info.start).mp hfirst
  obtain ⟨info', memoryObj, hattempted, hfront, rfl⟩ := htracks.mem_cutBack.mp hc
  obtain rfl := hspaced.eq_of_overlap hinfo hattempted.mem_chunkInfos
    ⟨Nat.le_refl _, hspaced.nonempty info hinfo⟩ hspan
  exact ⟨⟨memoryObj, hattempted⟩, hfront⟩

include hlength

theorem failsCleanly_of_marked (hmarked : ∀ pos : ℕ, (cutBack st).retMask[pos]? = some true ↔
      ∃ c ∈ (cutBack st).reorderedChunks, c.start ≤ pos ∧ pos < c.stop)
    (hrun : ∃ reached, ∀ pos : ℕ, (cutBack st).retMask[pos]? = some true ↔
      start ≤ pos ∧ pos < reached) :
    engine.FailsCleanly (chunkInfosOf segments) := by
  rintro info ⟨memoryObj, hattempted⟩ hfront
  have hinfo := hattempted.mem_chunkInfos
  have hnonempty := (spaced_of_consecutive hconsecutive).nonempty info hinfo
  have hfirst := htracks.marked_cutBack.mpr ⟨Nat.lt_of_lt_of_le hnonempty (hlength info hinfo),
    hfront, info, ⟨memoryObj, hattempted⟩, Nat.le_refl _, hnonempty⟩
  obtain ⟨reached, hrun⟩ := hrun
  refine ⟨(loads_of_marked hconsecutive htracks hmarked hinfo hfirst).2, fun earlier hearlier hlt => ?_⟩
  have hbefore := (hrun earlier.start).mpr ⟨le_start_of_consecutive hconsecutive earlier hearlier,
    hlt.trans ((hrun info.start).mp hfirst).2⟩
  exact (loads_of_marked hconsecutive htracks hmarked hearlier hbefore).1

omit hconsecutive in
theorem marked_of_failsCleanly (hclean : engine.FailsCleanly (chunkInfosOf segments)) (pos : ℕ) :
    (cutBack st).retMask[pos]? = some true ↔ ∃ info ∈ chunkInfosOf segments,
      (engine.Loads (chunkInfosOf segments) info ∧
        engine.InFront (chunkInfosOf segments) info.stop) ∧ info.start ≤ pos ∧ pos < info.stop := by
  rw [htracks.marked_cutBack]
  constructor
  · rintro ⟨-, hfront, info, ⟨memoryObj, hattempted⟩, hspan⟩
    have hstop := (hclean info ⟨memoryObj, hattempted⟩ (hfront.mono hspan.1)).1
    exact ⟨info, hattempted.mem_chunkInfos, ⟨⟨memoryObj, hattempted⟩, hstop⟩, hspan⟩
  · rintro ⟨info, hinfo, ⟨hloads, hstop⟩, hspan⟩
    exact ⟨Nat.lt_of_lt_of_le hspan.2 (hlength info hinfo), hstop.mono (Nat.le_of_lt hspan.2),
      info, hloads, hspan⟩

omit hconsecutive in
theorem marked_iff_of_failsCleanly (hclean : engine.FailsCleanly (chunkInfosOf segments)) (pos : ℕ) :
    (cutBack st).retMask[pos]? = some true ↔
      ∃ c ∈ (cutBack st).reorderedChunks, c.start ≤ pos ∧ pos < c.stop := by
  rw [marked_of_failsCleanly hlength htracks hclean]
  constructor
  · rintro ⟨info, -, ⟨⟨memoryObj, hattempted⟩, hstop⟩, hspan⟩
    exact ⟨_, htracks.mem_cutBack.mpr ⟨info, memoryObj, hattempted, hstop, rfl⟩, hspan⟩
  · rintro ⟨c, hc, hspan⟩
    obtain ⟨info, memoryObj, hattempted, hstop, rfl⟩ := htracks.mem_cutBack.mp hc
    exact ⟨info, hattempted.mem_chunkInfos, ⟨⟨memoryObj, hattempted⟩, hstop⟩, hspan⟩

theorem contiguous_of_failsCleanly (hclean : engine.FailsCleanly (chunkInfosOf segments)) :
    ∃ reached, ∀ pos : ℕ, (cutBack st).retMask[pos]? = some true ↔ start ≤ pos ∧ pos < reached := by
  have hspaced := spaced_of_consecutive hconsecutive
  obtain ⟨reached, hrun⟩ := run_of_consecutive hconsecutive
    (P := fun info => engine.Loads (chunkInfosOf segments) info ∧
      engine.InFront (chunkInfosOf segments) info.stop) fun a ha hPa b hb hlt => by
    have hfront := hPa.2.mono (Nat.le_of_lt (hspaced.nonempty a ha))
    exact ⟨(hclean a hPa.1 hfront).2 b hb hlt, hfront.mono (hspaced.stop_le_start hb ha hlt)⟩
  exact ⟨reached, fun pos =>
    (marked_of_failsCleanly hlength htracks hclean pos).trans (hrun pos)⟩

end Consecutive

theorem FailsCleanly.stop_inFront (hclean : engine.FailsCleanly chunkInfos) {info : ChunkInfo K}
    (hloads : engine.Loads chunkInfos info)
    (hbefore : ∀ failed, engine.Fails chunkInfos failed → info.start < failed.start) :
    engine.InFront chunkInfos info.stop := by
  rcases Classical.em (∃ failed, engine.Fails chunkInfos failed) with ⟨failed, hfailed⟩ | hnone
  · exact (hclean info hloads (.inr ⟨failed, hfailed, hbefore failed hfailed⟩)).1
  · exact .inl fun failed hfailed => hnone ⟨failed, hfailed⟩

theorem truthful_iff (h : engine.processTokensInternal tokens mask (zeros tokens) = .ok st) :
    engine.Truthful tokens mask st ↔ engine.FailsCleanly (engine.unmaskedChunks tokens mask) := by
  obtain ⟨segments, hsegments, hchunks, rfl⟩ := processTokensInternal_ok h
  have hconsecutive := engine.tokenDatabase.consecutive_of_processTokens hsegments
  have hlength := stop_le_length hsegments
  have htracks : engine.Tracks (engine.Attempted (chunkInfosOf segments)) tokens.length _ :=
    tracks_loadBlocks tokens
  rw [hchunks]
  constructor
  · intro htruth
    exact failsCleanly_of_marked hconsecutive hlength htracks htruth.marked htruth.contiguous
  · intro hclean
    refine ⟨marked_iff_of_failsCleanly hlength htracks hclean,
      contiguous_of_failsCleanly hconsecutive hlength htracks hclean, ?_⟩
    rw [hchunks]
    intro info memoryObj hattempted hbefore
    exact htracks.mem_cutBack.mpr ⟨info, memoryObj, hattempted,
      hclean.stop_inFront ⟨memoryObj, hattempted⟩ hbefore, rfl⟩

def secondChunkLost : RetrieveEngine (List (List ℕ × List ℕ)) ℕ ℕ ℕ where
  tokenDatabase := ChunkedTokenDatabase.spelled 2 true Nat.two_pos
  makeKeyByHash := List.length
  storageManager :=
    ⟨Dict.empty.set "LocalDiskBackend" ⟨List.length, fun _ => [some 7, none]⟩, false, []⟩
  pinnedLocation := none
  getSize _ := 1
  decodeMemoryObj := id

theorem truthful_iff_secondChunkLost :
    secondChunkLost.processTokensInternal [1, 2, 3, 4] none (zeros [1, 2, 3, 4]) =
        .ok ⟨1, [], [true, true, false, false], some 2⟩ ∧
      (secondChunkLost.Truthful [1, 2, 3, 4] none ⟨1, [], [true, true, false, false], some 2⟩ ↔
        secondChunkLost.FailsCleanly (secondChunkLost.unmaskedChunks [1, 2, 3, 4] none)) :=
  ⟨by rfl, truthful_iff (by rfl)⟩

theorem not_truthful_secondChunkLost :
    secondChunkLost.processTokensInternal [1, 2, 3, 4] none (zeros [1, 2, 3, 4]) =
        .ok ⟨1, [], [true, true, false, false], some 2⟩ ∧
      ¬ secondChunkLost.Truthful [1, 2, 3, 4] none ⟨1, [], [true, true, false, false], some 2⟩ := by
  refine ⟨by rfl, fun h => ?_⟩
  obtain ⟨c, hc, -⟩ := (h.marked 0).mp rfl
  exact absurd hc List.not_mem_nil

end RetrieveEngine

end LMCache
