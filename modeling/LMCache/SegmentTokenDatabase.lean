import LMCache.TokenDatabase

namespace LMCache

open List Nat RollingHash Slice ChunkedTokenDatabase

structure TensorUnfold where
  unfold : List ℕ → ℕ → Except String (List (List ℕ))
  windows : ∀ tokens size, size ≤ tokens.length → unfold tokens size = .ok (windows size tokens)
  tooLong : ∀ tokens size, tokens.length < size → ∃ message, unfold tokens size = .error message

structure SegmentTokenDatabase (H E : Type) where
  torch : TensorUnfold
  sepTokens : List ℕ
  noneHash : H
  hashFunc : H × List ℕ × List E → H

structure Generated (A : Type) where
  yielded : List A
  raised : Option String

namespace SegmentTokenDatabase

variable {H E K : Type}

def sepLen (db : SegmentTokenDatabase H E) : ℕ := db.sepTokens.length

def hashTokens (db : SegmentTokenDatabase H E) (tokens : List ℕ) : H :=
  db.hashFunc (db.noneHash, tokens, [])

def matchIndices (db : SegmentTokenDatabase H E) (windows : List (List ℕ)) : List ℕ :=
  (windows.zipIdx.filter fun window => decide (window.1 = db.sepTokens)).map Prod.snd

def splitAtMatches (tokens : List ℕ) (sepLen : ℕ) : List ℕ → ℕ → List (List ℕ)
  | [], start => [tokens.drop start]
  | idx :: found, start =>
      slice tokens start idx :: splitAtMatches tokens sepLen found (idx + sepLen)

def fastSplitBySubtensor (db : SegmentTokenDatabase H E) (tokens : List ℕ) : Generated (List ℕ) :=
  let unsplit := if db.sepLen = 0 ∨ tokens.length < db.sepLen then [tokens] else []
  match db.torch.unfold tokens db.sepLen with
  | .error message => ⟨unsplit, some message⟩
  | .ok windows =>
      ⟨unsplit ++ splitAtMatches tokens db.sepLen (db.matchIndices windows) 0, none⟩

def segments (db : SegmentTokenDatabase H E) (emit : H → K) (numFalses : ℕ) :
    ℕ → ℕ → List (List ℕ) → List (ℕ × ℕ × K)
  | _, _, [] => []
  | idx, startIdx, tokenChunk :: tokenChunks =>
      let endIdx := startIdx + tokenChunk.length
      let skipped := if 0 < idx then db.sepLen else 0
      let startIdx := startIdx + skipped
      let endIdx := endIdx + skipped
      let rest := segments db emit numFalses (idx + 1) endIdx tokenChunks
      if numFalses ≤ startIdx then
        (startIdx, endIdx, emit (db.hashTokens tokenChunk)) :: rest
      else rest

def processTokens (db : SegmentTokenDatabase H E) (emit : H → K) (tokens : Option (List ℕ))
    (hashes : Option (List H)) (offsets : Option (List ℕ)) (mask : Option (List Bool)) :
    Generated (ℕ × ℕ × K) :=
  match tokens, hashes, offsets with
  | some tokens, _, _ =>
      let numFalses := numFalses mask
      if tokens.length ≤ numFalses then
        ⟨[], some "The number of Falses in the mask shouldn't be less than the length of tokens."⟩
      else
        let tokenChunks := db.fastSplitBySubtensor tokens
        ⟨db.segments emit numFalses 0 0 tokenChunks.yielded, tokenChunks.raised⟩
  | none, some hashes, some offsets =>
      ⟨hashSegments emit 0 (hashes.zip offsets), none⟩
  | none, some _, none => ⟨[], some "If hashes are provided, offsets must also be provided."⟩
  | none, none, _ => ⟨[], some "Either tokens or hashes must be provided."⟩

variable (db : SegmentTokenDatabase H E) (emit : H → K)

structure Faithful (tokens : List ℕ) (result : Generated (ℕ × ℕ × K)) : Prop where
  finished : result.raised = none
  increasing : result.yielded.Pairwise fun a b => a.1 < b.1 ∧ a.2.1 ≤ b.1
  within : ∀ segment ∈ result.yielded, segment.1 ≤ segment.2.1 ∧ segment.2.1 ≤ tokens.length
  hashed : ∀ segment ∈ result.yielded,
    segment.2.2 = emit (db.hashTokens (slice tokens segment.1 segment.2.1))
  joined : db.sepTokens.intercalate
    (result.yielded.map fun segment => slice tokens segment.1 segment.2.1) = tokens

variable (tokens : List ℕ)

def SepAt (p : ℕ) : Prop :=
  p + db.sepLen ≤ tokens.length ∧ slice tokens p (p + db.sepLen) = db.sepTokens

def NoOverlap : Prop :=
  ∀ p q, db.SepAt tokens p → db.SepAt tokens q → p < q → p + db.sepLen ≤ q

def Apart (sepLen : ℕ) : ℕ → List ℕ → Prop
  | _, [] => True
  | start, idx :: found => start ≤ idx ∧ Apart sepLen (idx + sepLen) found

theorem processTokens_some {tokens : List ℕ} (h : 0 < tokens.length) :
    db.processTokens emit (some tokens) none none none =
      ⟨db.segments emit 0 0 0 (db.fastSplitBySubtensor tokens).yielded,
        (db.fastSplitBySubtensor tokens).raised⟩ :=
  if_neg (not_le.mpr h)

variable {sepLen start : ℕ}

theorem apart_iff {found : List ℕ} :
    Apart sepLen start found ↔
      (∀ p ∈ found, start ≤ p) ∧ found.Pairwise fun p q => p + sepLen ≤ q := by
  induction found generalizing start with
  | nil => simp [Apart]
  | cons idx found ih =>
    rw [Apart, ih, pairwise_cons, forall_mem_cons]
    constructor
    · rintro ⟨hle, hafter, hrest⟩
      refine ⟨⟨hle, fun q hq => ?_⟩, hafter, hrest⟩
      have hq := hafter q hq
      omega
    · rintro ⟨⟨hle, -⟩, hafter, hrest⟩
      exact ⟨hle, hafter, hrest⟩

theorem pairwise_of_sorted {R : ℕ → ℕ → Prop} {found : List ℕ} (hsorted : found.Pairwise (· < ·)) :
    found.Pairwise R ↔ ∀ p ∈ found, ∀ q ∈ found, p < q → R p q := by
  induction hsorted with
  | nil => simp
  | @cons idx found hlt hrest ih =>
    rw [pairwise_cons, ih]
    constructor
    · rintro ⟨hafter, hlater⟩ p hp q hq hpq
      rcases mem_cons.mp hp with rfl | hpLater
      · rcases mem_cons.mp hq with rfl | hqLater
        · exact absurd hpq (lt_irrefl _)
        · exact hafter q hqLater
      · rcases mem_cons.mp hq with rfl | hqLater
        · exact absurd hpq (not_lt.mpr (le_of_lt (hlt p hpLater)))
        · exact hlater p hpLater q hqLater hpq
    · intro h
      exact ⟨fun q hq => h idx mem_cons_self q (mem_cons_of_mem _ hq) (hlt q hq),
        fun p hp q hq => h p (mem_cons_of_mem _ hp) q (mem_cons_of_mem _ hq)⟩

theorem matchIndices_eq :
    db.matchIndices (windows db.sepLen tokens) =
      (range (tokens.length + 1 - db.sepLen)).filter fun p =>
        decide (slice tokens p (p + db.sepLen) = db.sepTokens) := by
  have hindexed : (windows db.sepLen tokens).zipIdx =
      (range (tokens.length + 1 - db.sepLen)).map fun p =>
        (slice tokens p (p + db.sepLen), p) := by
    rw [windows]
    exact ext_getElem (by simp) fun i h1 h2 => by simp
  rw [matchIndices, hindexed, filter_map, map_map]
  exact map_id _

theorem mem_matchIndices (p : ℕ) :
    p ∈ db.matchIndices (windows db.sepLen tokens) ↔ db.SepAt tokens p := by
  rw [matchIndices_eq, mem_filter, mem_range, decide_eq_true_eq, SepAt]
  constructor
  · rintro ⟨hlt, hsep⟩
    exact ⟨by omega, hsep⟩
  · rintro ⟨hle, hsep⟩
    exact ⟨by omega, hsep⟩

theorem apart_matchIndices :
    Apart db.sepLen 0 (db.matchIndices (windows db.sepLen tokens)) ↔ db.NoOverlap tokens := by
  have hsorted : (db.matchIndices (windows db.sepLen tokens)).Pairwise (· < ·) := by
    rw [matchIndices_eq]
    exact List.Pairwise.filter _ pairwise_lt_range
  rw [apart_iff, pairwise_of_sorted hsorted]
  simp only [mem_matchIndices]
  constructor
  · rintro ⟨-, h⟩ p q hp hq hpq
    exact h p hp q hq hpq
  · intro h
    exact ⟨fun p _ => zero_le p, fun p hp q hq hpq => h p q hp hq hpq⟩

def between (tokens : List ℕ) (sepLen : ℕ) : List ℕ → ℕ → List (ℕ × ℕ)
  | [], start => [(start, tokens.length)]
  | idx :: found, start => (start, idx) :: between tokens sepLen found (idx + sepLen)

def labelled (segment : ℕ × ℕ) : ℕ × ℕ × K :=
  (segment.1, segment.2, emit (db.hashTokens (slice tokens segment.1 segment.2)))

theorem slice_to_end (start : ℕ) : slice tokens start tokens.length = tokens.drop start := by
  rw [slice, take_length]

theorem segments_eq_between {tokens found : List ℕ} (idx startIdx start : ℕ)
    (hstart : start = startIdx + if 0 < idx then db.sepLen else 0)
    (hfits : ∀ p ∈ found, p + db.sepLen ≤ tokens.length) (hle : start ≤ tokens.length)
    (h : Apart db.sepLen start found) :
    db.segments emit 0 idx startIdx (splitAtMatches tokens db.sepLen found start) =
      (between tokens db.sepLen found start).map (db.labelled emit tokens) := by
  induction found generalizing idx startIdx start with
  | nil =>
    have hend : startIdx + (tokens.length - start) + (if 0 < idx then db.sepLen else 0) =
        tokens.length := by omega
    simp only [splitAtMatches, segments, between, labelled, map_cons, map_nil,
      length_drop, zero_le, if_true, hend, ← hstart, slice_to_end]
  | cons p found ih =>
    obtain ⟨hfirst, hrest⟩ := h
    have hp : p + db.sepLen ≤ tokens.length := hfits p mem_cons_self
    have hlength : (slice tokens start p).length = p - start :=
      length_slice tokens (by omega)
    have hend : startIdx + (p - start) + (if 0 < idx then db.sepLen else 0) = p := by omega
    have hnext := ih (idx + 1) p (p + db.sepLen)
      (by rw [if_pos (succ_pos idx)]) (fun q hq => hfits q (mem_cons_of_mem _ hq)) hp hrest
    simp only [splitAtMatches, segments, between, labelled, map_cons, hlength, zero_le,
      if_true, hend, ← hstart, hnext]

theorem between_bounds {tokens found : List ℕ} (hfits : ∀ p ∈ found, p + sepLen ≤ tokens.length)
    (hle : start ≤ tokens.length) (h : Apart sepLen start found) :
    ∀ segment ∈ between tokens sepLen found start,
      start ≤ segment.1 ∧ segment.1 ≤ segment.2 ∧ segment.2 ≤ tokens.length := by
  induction found generalizing start with
  | nil =>
    intro segment hmem
    rw [mem_singleton.mp hmem]
    exact ⟨le_refl _, hle, le_refl _⟩
  | cons p found ih =>
    obtain ⟨hfirst, hrest⟩ := h
    have hp : p + sepLen ≤ tokens.length := hfits p mem_cons_self
    intro segment hmem
    rcases mem_cons.mp hmem with rfl | hlater
    · exact ⟨le_refl _, hfirst, by omega⟩
    · obtain ⟨hfrom, horder, hto⟩ := ih (fun q hq => hfits q (mem_cons_of_mem _ hq)) hp hrest
        segment hlater
      exact ⟨by omega, horder, hto⟩

theorem between_increasing {tokens found : List ℕ} (hpos : 0 < sepLen)
    (hfits : ∀ p ∈ found, p + sepLen ≤ tokens.length) (h : Apart sepLen start found) :
    (between tokens sepLen found start).Pairwise fun a b => a.1 < b.1 ∧ a.2 ≤ b.1 := by
  induction found generalizing start with
  | nil => exact pairwise_singleton _ _
  | cons p found ih =>
    obtain ⟨hfirst, hrest⟩ := h
    have hlater : ∀ q ∈ found, q + sepLen ≤ tokens.length := fun q hq =>
      hfits q (mem_cons_of_mem _ hq)
    refine .cons (fun segment hmem => ?_) (ih hlater hrest)
    obtain ⟨hfrom, -, -⟩ := between_bounds hlater (hfits p mem_cons_self) hrest segment hmem
    exact ⟨by omega, by omega⟩

theorem intercalate_between {tokens found : List ℕ} {start : ℕ}
    (hsep : ∀ p ∈ found, db.SepAt tokens p) (h : Apart db.sepLen start found) :
    db.sepTokens.intercalate
      ((between tokens db.sepLen found start).map fun segment =>
        slice tokens segment.1 segment.2) = tokens.drop start := by
  induction found generalizing start with
  | nil => rw [between, map_singleton, intercalate_singleton, slice_to_end]
  | cons p found ih =>
    obtain ⟨hfirst, hrest⟩ := h
    obtain ⟨hfits, hsepAt⟩ := hsep p mem_cons_self
    have hnonempty : (between tokens db.sepLen found (p + db.sepLen)).map (fun segment =>
        slice tokens segment.1 segment.2) ≠ [] := by
      cases found with
      | nil => simp [between]
      | cons q found => simp [between]
    rw [between, map_cons, intercalate_cons_of_ne_nil hnonempty,
      ih (fun q hq => hsep q (mem_cons_of_mem _ hq)) hrest, ← slice_to_end tokens start,
      ← slice_to_end tokens (p + db.sepLen)]
    nth_rewrite 1 [← hsepAt]
    rw [slice_append tokens hfirst (le_add_right _ _), slice_append tokens (by omega) hfits]

theorem faithful_of_apart {tokens : List ℕ} (hpos : 0 < db.sepLen)
    (hlong : db.sepLen ≤ tokens.length)
    (h : Apart db.sepLen 0 (db.matchIndices (windows db.sepLen tokens))) :
    db.Faithful emit tokens (db.processTokens emit (some tokens) none none none) := by
  have hmem := fun p => (db.mem_matchIndices tokens p).mp
  have hfits : ∀ p ∈ db.matchIndices (windows db.sepLen tokens),
      p + db.sepLen ≤ tokens.length := fun p hp => (hmem p hp).1
  have hsplit : db.fastSplitBySubtensor tokens = ⟨splitAtMatches tokens db.sepLen
      (db.matchIndices (windows db.sepLen tokens)) 0, none⟩ := by
    rw [fastSplitBySubtensor, db.torch.windows tokens db.sepLen hlong,
      if_neg (by omega : ¬ (db.sepLen = 0 ∨ tokens.length < db.sepLen))]
    rfl
  have hresult : db.processTokens emit (some tokens) none none none =
      ⟨(between tokens db.sepLen (db.matchIndices (windows db.sepLen tokens)) 0).map
        (db.labelled emit tokens), none⟩ := by
    rw [db.processTokens_some emit (by omega), hsplit,
      ← db.segments_eq_between emit 0 0 0 rfl hfits (zero_le _) h]
  rw [hresult]
  constructor
  · rfl
  · exact pairwise_map.mpr (between_increasing hpos hfits h)
  · intro segment hsegment
    obtain ⟨bounds, hbounds, rfl⟩ := mem_map.mp hsegment
    exact (between_bounds hfits (zero_le _) h bounds hbounds).2
  · intro segment hsegment
    obtain ⟨bounds, hbounds, rfl⟩ := mem_map.mp hsegment
    rfl
  · rw [map_map]
    exact (db.intercalate_between hmem h).trans drop_zero

theorem exists_beyond {tokens found : List ℕ} (idx startIdx start ahead : ℕ)
    (hahead : ahead = startIdx + if 0 < idx then db.sepLen else 0)
    (hfits : ∀ p ∈ found, p + db.sepLen ≤ tokens.length) (hstart : start ≤ tokens.length)
    (hle : start ≤ ahead) (h : start < ahead ∨ ¬ Apart db.sepLen start found) :
    ∃ segment ∈ db.segments emit 0 idx startIdx (splitAtMatches tokens db.sepLen found start),
      tokens.length < segment.2.1 := by
  induction found generalizing idx startIdx start ahead with
  | nil =>
    have hlt : start < ahead := h.resolve_right fun hnot => hnot trivial
    simp only [splitAtMatches, segments, zero_le, if_true]
    refine ⟨_, mem_cons_self, ?_⟩
    simp only [length_drop]
    omega
  | cons p found ih =>
    have hp : p + db.sepLen ≤ tokens.length := hfits p mem_cons_self
    have hlength : (slice tokens start p).length = p - start :=
      length_slice tokens (by omega)
    simp only [splitAtMatches, segments, zero_le, if_true, hlength]
    have hnext := ih (idx + 1) (startIdx + (p - start) + if 0 < idx then db.sepLen else 0)
      (p + db.sepLen) (ahead + (p - start) + db.sepLen)
      (by rw [if_pos (succ_pos idx), hahead]; omega)
      (fun q hq => hfits q (mem_cons_of_mem _ hq)) hp (by omega) (by
        rw [Apart] at h
        by_cases hfirst : start ≤ p
        · rcases h with hlt | hnot
          · exact .inl (by omega)
          · exact .inr fun hrest => hnot ⟨hfirst, hrest⟩
        · exact .inl (by omega))
    obtain ⟨segment, hmem, hbeyond⟩ := hnext
    exact ⟨segment, mem_cons_of_mem _ hmem, hbeyond⟩

theorem not_faithful_of_beyond {tokens : List ℕ} {result : Generated (ℕ × ℕ × K)}
    (h : ∃ segment ∈ result.yielded, tokens.length < segment.2.1) :
    ¬ db.Faithful emit tokens result := by
  rintro hfaithful
  obtain ⟨segment, hmem, hbeyond⟩ := h
  exact absurd hbeyond (not_lt.mpr (hfaithful.within segment hmem).2)

theorem processTokens_faithful_iff :
    db.Faithful emit tokens (db.processTokens emit (some tokens) none none none) ↔
      0 < db.sepLen ∧ db.sepLen ≤ tokens.length ∧ db.NoOverlap tokens := by
  constructor
  · intro hfaithful
    have hfinished := hfaithful.finished
    have hnonempty : 0 < tokens.length := by
      by_contra hempty
      simp [processTokens, numFalses, not_lt.mp hempty] at hfinished
    rw [db.processTokens_some emit hnonempty] at hfaithful
    have hlong : db.sepLen ≤ tokens.length := by
      by_contra hshort
      obtain ⟨message, hmessage⟩ := db.torch.tooLong tokens db.sepLen (not_le.mp hshort)
      have hraised := hfaithful.finished
      simp [fastSplitBySubtensor, hmessage] at hraised
    have hfits : ∀ p ∈ db.matchIndices (windows db.sepLen tokens),
        p + db.sepLen ≤ tokens.length := fun p hp => ((db.mem_matchIndices tokens p).mp hp).1
    have hpos : 0 < db.sepLen := by
      by_contra hzero
      have hsepLen : db.sepLen = 0 := Nat.eq_zero_of_not_pos hzero
      refine db.not_faithful_of_beyond emit ?_ hfaithful
      obtain ⟨segment, hmem, hbeyond⟩ := db.exists_beyond emit 1 tokens.length 0 _ rfl hfits
        (zero_le _) (zero_le _) (.inl (by rw [if_pos one_pos]; omega))
      refine ⟨segment, ?_, hbeyond⟩
      rw [fastSplitBySubtensor, db.torch.windows tokens db.sepLen hlong, if_pos (.inl hsepLen)]
      simp only [singleton_append, segments, Nat.zero_le, if_true, Nat.zero_add,
        lt_irrefl, if_false, add_zero]
      exact mem_cons_of_mem _ hmem
    refine ⟨hpos, hlong, ?_⟩
    rw [← apart_matchIndices]
    by_contra hoverlap
    refine db.not_faithful_of_beyond emit ?_ hfaithful
    rw [fastSplitBySubtensor, db.torch.windows tokens db.sepLen hlong,
      if_neg (by omega : ¬ (db.sepLen = 0 ∨ tokens.length < db.sepLen))]
    exact db.exists_beyond emit 0 0 0 _ rfl hfits (zero_le _) (zero_le _) (.inr hoverlap)
  · rintro ⟨hpos, hlong, hapart⟩
    exact db.faithful_of_apart emit hpos hlong ((db.apart_matchIndices tokens).mpr hapart)

def torchUnfold : TensorUnfold where
  unfold tokens size :=
    if size ≤ tokens.length then .ok (windows size tokens)
    else .error s!"maximum size for tensor at dimension 0 is {tokens.length} but size is {size}"
  windows _ _ h := if_pos h
  tooLong _ _ h := ⟨_, if_neg (not_le.mpr h)⟩

def spaceSeparated (sepTokens : List ℕ) : SegmentTokenDatabase (List ℕ) Unit :=
  ⟨torchUnfold, sepTokens, [], fun inputs => inputs.2.1⟩

theorem not_faithful_short :
    ¬ (spaceSeparated [7, 8]).Faithful id [5]
      ((spaceSeparated [7, 8]).processTokens id (some [5]) none none none) ∧
    ¬ (spaceSeparated []).Faithful id [5]
      ((spaceSeparated []).processTokens id (some [5]) none none none) ∧
    ¬ (spaceSeparated [1, 1]).Faithful id [1, 1, 1]
      ((spaceSeparated [1, 1]).processTokens id (some [1, 1, 1]) none none none) := by
  refine ⟨fun h => ?_, fun h => ?_, fun h => ?_⟩
  · exact absurd h.finished (by decide)
  · exact absurd (h.within (1, 2, [5]) (by decide)).2 (by decide)
  · exact absurd (h.within (4, 4, []) (by decide)).2 (by decide)

end SegmentTokenDatabase

end LMCache
