import LMCache.Foundations.Hashes

namespace LMCache

open List Nat

structure ChunkedTokenDatabase (H E : Type) where
  chunkSize : ℕ
  saveUnfullChunk : Bool
  noneHash : H
  hashFunc : H × List ℕ × List E → H
  chunkSizePos : 0 < chunkSize

namespace ChunkedTokenDatabase

variable {H E K : Type}

def default (noneHash : H) (hashFunc : H × List ℕ × List E → H) : ChunkedTokenDatabase H E where
  chunkSize := 256
  saveUnfullChunk := true
  noneHash := noneHash
  hashFunc := hashFunc
  chunkSizePos := by decide

variable (db : ChunkedTokenDatabase H E)

def canonicalizeHashInputs (prefixHash : Option H) (tokensTuple : List ℕ)
    (extraKeys : Option (List E)) : H × List ℕ × List E :=
  (prefixHash.getD db.noneHash, tokensTuple, extraKeys.getD [])

def hashTokens (tokens : List ℕ) (prefixHash : Option H) (extraKeys : Option (List E)) : H :=
  db.hashFunc (db.canonicalizeHashInputs prefixHash tokens extraKeys)

def getInitHash : H := db.noneHash

def effectiveLen (tokens : List ℕ) : ℕ :=
  if db.saveUnfullChunk then tokens.length else tokens.length - tokens.length % db.chunkSize

def chunkTokens (tokens : List ℕ) : List (List ℕ) :=
  let numChunks := (db.effectiveLen tokens + db.chunkSize - 1) / db.chunkSize
  (range' 0 numChunks db.chunkSize).map fun i => Slice.slice tokens i (i + db.chunkSize)

def chainStep (prefixHash : H) (tokenChunk : List ℕ) : H :=
  db.hashTokens tokenChunk (some prefixHash) none

def prefixHash (tokenChunks : List (List ℕ)) : List H :=
  HashChain.running db.chainStep db.getInitHash tokenChunks

def numFalses (mask : Option (List Bool)) : ℕ :=
  (mask.map (fun m => m.length - m.count true)).getD 0

def tokenSegments (emit : H → K) (tokens : List ℕ) (numFalses : ℕ) : List (ℕ × ℕ × K) :=
  (db.prefixHash (db.chunkTokens tokens)).zipIdx.filterMap fun p =>
    let startIdx := p.2 * db.chunkSize
    let endIdx := min (startIdx + db.chunkSize) tokens.length
    if startIdx < numFalses then none else some (startIdx, endIdx, emit p.1)

def hashSegments (emit : H → K) : ℕ → List (H × ℕ) → List (ℕ × ℕ × K)
  | _, [] => []
  | startIdx, (hashVal, offset) :: rest =>
      (startIdx, startIdx + offset, emit hashVal) :: hashSegments emit (startIdx + offset) rest

def processTokens (emit : H → K) (tokens : Option (List ℕ)) (hashes : Option (List H))
    (offsets : Option (List ℕ)) (mask : Option (List Bool)) : Except String (List (ℕ × ℕ × K)) :=
  if numFalses mask % db.chunkSize ≠ 0 then
    .error "The number of Falses in the mask is not a multiple of the chunk size."
  else
    match tokens, hashes, offsets with
    | some tokens, _, _ => .ok (db.tokenSegments emit tokens (numFalses mask))
    | none, some hashes, some offsets => .ok (hashSegments emit 0 (hashes.zip offsets))
    | none, some _, none => .error "If hashes are provided, offsets must also be provided."
    | none, none, _ => .error "Either tokens or hashes must be provided."

section Emitted

variable (db : ChunkedTokenDatabase H E) (emit : H → K)

theorem tokenSegments_eq_map (tokens : List ℕ) (numFalses : ℕ) :
    db.tokenSegments emit tokens numFalses =
      (db.tokenSegments id tokens numFalses).map fun segment =>
        (segment.1, segment.2.1, emit segment.2.2) := by
  simp only [tokenSegments, map_filterMap]
  refine filterMap_congr fun p _ => ?_
  split
  · rfl
  · rfl

theorem hashSegments_eq_map (startIdx : ℕ) (pairs : List (H × ℕ)) :
    hashSegments emit startIdx pairs =
      (hashSegments id startIdx pairs).map fun segment =>
        (segment.1, segment.2.1, emit segment.2.2) := by
  induction pairs generalizing startIdx with
  | nil => rfl
  | cons pair pairs ih =>
    simp only [hashSegments, map_cons, id_eq]
    rw [ih]

theorem processTokens_eq_map (tokens : Option (List ℕ)) (hashes : Option (List H))
    (offsets : Option (List ℕ)) (mask : Option (List Bool)) :
    db.processTokens emit tokens hashes offsets mask =
      (db.processTokens id tokens hashes offsets mask).map (map fun segment =>
        (segment.1, segment.2.1, emit segment.2.2)) := by
  simp only [processTokens]
  split
  · rfl
  · cases tokens with
    | some tokens => exact congrArg Except.ok (db.tokenSegments_eq_map emit tokens _)
    | none =>
      cases hashes with
      | none => rfl
      | some hashes =>
        cases offsets with
        | none => rfl
        | some offsets => exact congrArg Except.ok (hashSegments_eq_map emit 0 _)

end Emitted

variable (db : ChunkedTokenDatabase H E) (tokens : List ℕ)

def numChunks : ℕ := (db.chunkTokens tokens).length

variable (chunkId : ℕ)

def chunk : List ℕ :=
  Slice.slice tokens (chunkId * db.chunkSize) (chunkId * db.chunkSize + db.chunkSize)

def endIdx : ℕ :=
  min (chunkId * db.chunkSize + db.chunkSize) tokens.length

def chunkHash : H :=
  (((range (chunkId + 1)).map (db.chunk tokens)).foldl db.chainStep db.noneHash)

theorem effectiveLen_le : db.effectiveLen tokens ≤ tokens.length := by
  unfold effectiveLen
  split_ifs
  · exact le_refl _
  · exact sub_le _ _

theorem chunkTokens_eq :
    db.chunkTokens tokens = (range (db.numChunks tokens)).map (db.chunk tokens) := by
  refine ext_getElem (by simp [numChunks]) fun i h1 h2 => ?_
  simp [chunkTokens, chunk, mul_comm]

theorem lt_numChunks_iff :
    chunkId < db.numChunks tokens ↔ chunkId * db.chunkSize < db.effectiveLen tokens := by
  have hpos := db.chunkSizePos
  simp only [numChunks, chunkTokens, length_map, length_range']
  rw [lt_iff_add_one_le, le_div_iff_mul_le hpos, add_mul, one_mul]
  omega

theorem prefixHash_eq :
    db.prefixHash (db.chunkTokens tokens) =
      (range (db.numChunks tokens)).map (db.chunkHash tokens) := by
  rw [prefixHash, HashChain.running_eq, ← numChunks]
  refine map_congr_left fun i hi => ?_
  have hlt : i + 1 ≤ db.numChunks tokens := mem_range.mp hi
  rw [chunkTokens_eq, ← map_take, take_range, min_eq_left hlt]
  rfl

theorem range_filterMap_skip (f : ℕ → K) (m n : ℕ) :
    (range n).filterMap (fun i => if i < m then none else some (f i)) =
      (range' m (n - m)).map f := by
  induction n with
  | zero => simp
  | succ n ih =>
    rw [range_succ, filterMap_append, ih]
    rcases Nat.lt_or_ge n m with hlt | hge
    · rw [Nat.sub_eq_zero_of_le (Nat.le_of_lt hlt), Nat.sub_eq_zero_of_le hlt]
      simp [hlt]
    · rw [show n + 1 - m = n - m + 1 by omega, range'_concat, map_append]
      simp [Nat.not_lt.mpr hge, Nat.add_sub_cancel' hge]

theorem tokenSegments_eq (emit : H → K) (tokens : List ℕ) (skipped : ℕ) :
    db.tokenSegments emit tokens (skipped * db.chunkSize) =
      (range' skipped (db.numChunks tokens - skipped)).map fun chunkId =>
        (chunkId * db.chunkSize, db.endIdx tokens chunkId, emit (db.chunkHash tokens chunkId)) := by
  have hindexed : (db.prefixHash (db.chunkTokens tokens)).zipIdx =
      (range (db.numChunks tokens)).map (fun i => (db.chunkHash tokens i, i)) := by
    rw [prefixHash_eq]
    exact ext_getElem (by simp) fun i h1 h2 => by simp
  rw [tokenSegments, hindexed, filterMap_map, ← range_filterMap_skip]
  refine congrArg (fun f => filterMap f _) (funext fun i => ?_)
  simp only [Function.comp_apply, Nat.mul_lt_mul_right db.chunkSizePos, endIdx]

theorem endIdx_eq_of_lt {tokens : List ℕ} {chunkId : ℕ} (h : chunkId + 1 < db.numChunks tokens) :
    db.endIdx tokens chunkId = (chunkId + 1) * db.chunkSize := by
  have hlt := (db.lt_numChunks_iff tokens (chunkId + 1)).mp h
  have hle := db.effectiveLen_le tokens
  rw [endIdx, ← succ_mul]
  exact min_eq_left (le_of_lt (lt_of_lt_of_le hlt hle))

theorem endIdx_last {tokens : List ℕ} {chunkId : ℕ} (h : chunkId + 1 = db.numChunks tokens) :
    db.endIdx tokens chunkId = db.effectiveLen tokens := by
  have hlt := (db.lt_numChunks_iff tokens chunkId).mp (by omega)
  have hge : ¬ (chunkId + 1) * db.chunkSize < db.effectiveLen tokens := fun hlt =>
    absurd ((db.lt_numChunks_iff tokens (chunkId + 1)).mpr hlt) (by omega)
  have hpos := db.chunkSizePos
  rw [endIdx, ← succ_mul]
  rw [effectiveLen] at hlt hge ⊢
  split_ifs at hlt hge ⊢
  · exact min_eq_right (by simpa using hge)
  · rw [← div_mul_self_eq_mod_sub_self] at hlt hge ⊢
    have hlo : chunkId < tokens.length / db.chunkSize := Nat.lt_of_mul_lt_mul_right hlt
    have hhi : tokens.length / db.chunkSize ≤ chunkId + 1 :=
      Nat.le_of_mul_le_mul_right (Nat.le_of_not_lt hge) hpos
    have heq : tokens.length / db.chunkSize = chunkId + 1 := by omega
    have hle := div_mul_le_self tokens.length db.chunkSize
    rw [heq] at hle ⊢
    exact min_eq_left hle

def Consecutive : ℕ → ℕ → List (ℕ × ℕ × K) → Prop
  | start, stop, [] => start = stop
  | start, stop, (s, e, _) :: rest => s = start ∧ s < e ∧ Consecutive e stop rest

variable {segments : List (ℕ × ℕ × K)} {start stop : ℕ}

theorem Consecutive.start_lt (h : Consecutive start stop segments) :
    ∀ segment ∈ segments, start < segment.2.1 := by
  induction segments generalizing start with
  | nil => exact fun _ hmem => absurd hmem not_mem_nil
  | cons head segments ih =>
    obtain ⟨s, e, k⟩ := head
    obtain ⟨rfl, hlt, hrest⟩ := h
    intro segment hmem
    rcases mem_cons.mp hmem with rfl | hlater
    · exact hlt
    · exact lt_trans hlt (ih hrest segment hlater)

theorem Consecutive.pairwise_lt (h : Consecutive start stop segments) :
    segments.Pairwise fun a b => a.2.1 < b.2.1 := by
  induction segments generalizing start with
  | nil => exact .nil
  | cons head segments ih =>
    obtain ⟨s, e, k⟩ := head
    obtain ⟨rfl, hlt, hrest⟩ := h
    exact .cons hrest.start_lt (ih hrest)

theorem consecutive_range' (emit : ℕ → K) (tokens : List ℕ) (remaining chunkId : ℕ)
    (h : chunkId + remaining = db.numChunks tokens) :
    Consecutive (if remaining = 0 then db.effectiveLen tokens else chunkId * db.chunkSize)
      (db.effectiveLen tokens) ((range' chunkId remaining).map fun chunkId =>
        (chunkId * db.chunkSize, db.endIdx tokens chunkId, emit chunkId)) := by
  induction remaining generalizing chunkId with
  | zero => rfl
  | succ remaining ih =>
    have hpos := db.chunkSizePos
    have hlt := (db.lt_numChunks_iff tokens chunkId).mp (by omega)
    have hle := db.effectiveLen_le tokens
    refine ⟨rfl, ?_, ?_⟩
    · rw [endIdx]
      omega
    · have hnext := ih (chunkId + 1) (by omega)
      split_ifs at hnext with hzero
      · rw [endIdx_last db (by omega)]
        exact hnext
      · rw [endIdx_eq_of_lt db (by omega)]
        exact hnext

variable {mask : Option (List Bool)}

theorem numFalses_le_effectiveLen {tokens : List ℕ} (hdvd : numFalses mask % db.chunkSize = 0)
    (hlen : ∀ m ∈ mask, m.length = tokens.length) :
    numFalses mask ≤ db.effectiveLen tokens := by
  have hle : numFalses mask ≤ tokens.length := by
    cases mask with
    | none => exact zero_le _
    | some m =>
      rw [← hlen m rfl]
      exact sub_le _ _
  rw [effectiveLen]
  split_ifs
  · exact hle
  · obtain ⟨k, hk⟩ := dvd_of_mod_eq_zero hdvd
    rw [← div_mul_self_eq_mod_sub_self, mul_comm, hk]
    rw [hk, mul_comm] at hle
    exact mul_le_mul_left _ ((le_div_iff_mul_le db.chunkSizePos).mpr hle)

variable {offsets : Option (List ℕ)} {hashes : Option (List H)}

theorem processTokens_ok {emit : H → K} {tokens : List ℕ}
    (h : db.processTokens emit (some tokens) hashes offsets mask = .ok segments) :
    ∃ skipped, numFalses mask = skipped * db.chunkSize ∧
      segments = (range' skipped (db.numChunks tokens - skipped)).map fun chunkId =>
        (chunkId * db.chunkSize, db.endIdx tokens chunkId, emit (db.chunkHash tokens chunkId)) := by
  rw [processTokens] at h
  split_ifs at h with hdvd
  obtain ⟨k, hk⟩ := dvd_of_mod_eq_zero (not_not.mp hdvd)
  rw [mul_comm] at hk
  refine ⟨k, hk, ?_⟩
  rw [← tokenSegments_eq, ← hk]
  exact (Except.ok.inj h).symm

theorem processTokens_unmasked (emit : H → K) (tokens : List ℕ) :
    db.processTokens emit (some tokens) none none none = .ok (db.tokenSegments emit tokens 0) := rfl

theorem consecutive_of_processTokens {emit : H → K} {tokens : List ℕ}
    (h : db.processTokens emit (some tokens) hashes offsets mask = .ok segments) :
    Consecutive (numFalses mask) (max (numFalses mask) (db.effectiveLen tokens)) segments := by
  obtain ⟨skipped, hskipped, rfl⟩ := db.processTokens_ok h
  rw [hskipped]
  rcases lt_or_ge skipped (db.numChunks tokens) with hlt | hge
  · have hlen := (db.lt_numChunks_iff tokens skipped).mp hlt
    have hchain := db.consecutive_range' (fun chunkId => emit (db.chunkHash tokens chunkId)) tokens
      (db.numChunks tokens - skipped) skipped (by omega)
    rw [if_neg (by omega)] at hchain
    rw [max_eq_right (le_of_lt hlen)]
    exact hchain
  · have hlen : ¬ skipped * db.chunkSize < db.effectiveLen tokens := fun hlt =>
      absurd ((db.lt_numChunks_iff tokens skipped).mpr hlt) (by omega)
    rw [Nat.sub_eq_zero_of_le hge, Nat.max_eq_left (Nat.le_of_not_lt hlen)]
    exact rfl

theorem getElem?_processTokens {tokens : List ℕ} {segments : List (ℕ × ℕ × H)}
    {i startIdx stopIdx : ℕ} {hashVal : H}
    (h : db.processTokens id (some tokens) hashes offsets mask = .ok segments)
    (hi : segments[i]? = some (startIdx, stopIdx, hashVal)) :
    ∃ chunkId < db.numChunks tokens, stopIdx = db.endIdx tokens chunkId ∧
      hashVal = db.chunkHash tokens chunkId := by
  obtain ⟨skipped, _, rfl⟩ := db.processTokens_ok h
  obtain ⟨chunkId, hmem, heq⟩ := mem_map.mp (mem_of_getElem? hi)
  simp only [id_eq, Prod.mk.injEq] at heq
  have hbounds := mem_range'_1.mp hmem
  exact ⟨chunkId, by omega, heq.2.1.symm, heq.2.2.symm⟩

theorem map_chunk_eq_iff (x y : List ℕ) (n : ℕ) :
    (range n).map (db.chunk x) = (range n).map (db.chunk y) ↔
      x.take (n * db.chunkSize) = y.take (n * db.chunkSize) := by
  induction n with
  | zero => simp
  | succ n ih =>
    have hsplit : ∀ z : List ℕ, z.take ((n + 1) * db.chunkSize) =
        z.take (n * db.chunkSize) ++ db.chunk z n := fun z => by
      rw [← Slice.slice_zero, ← Slice.slice_zero, chunk, succ_mul]
      exact (Slice.slice_append z (zero_le _) (le_add_right _ _)).symm
    rw [range_succ, map_append, map_append, hsplit, hsplit]
    constructor
    · intro h
      obtain ⟨hlead, hlast⟩ := append_inj' h rfl
      rw [ih.mp hlead, singleton_inj.mp hlast]
    · intro h
      have hlead : x.take (n * db.chunkSize) = y.take (n * db.chunkSize) := by
        have := congrArg (take (n * db.chunkSize)) h
        rwa [← hsplit, ← hsplit, take_take, take_take,
          min_eq_left (mul_le_mul_right _ (le_succ n))] at this
      rw [hlead] at h
      rw [ih.mpr hlead, map_singleton, map_singleton, append_cancel_left h]

variable {db}

theorem collisionFree_chainStep (hinj : Function.Injective db.hashFunc)
    (hfresh : ∀ a, db.hashFunc a ≠ db.noneHash) :
    HashChain.CollisionFree db.chainStep db.noneHash where
  inj h a h' a' heq := by
    have hinputs := hinj heq
    simp only [canonicalizeHashInputs, Option.getD_some, Prod.mk.injEq, and_true] at hinputs
    exact hinputs
  fresh h a := hfresh _

variable {x y : List ℕ}

theorem chunkHash_eq_iff (hfree : HashChain.CollisionFree db.chainStep db.noneHash) {i j : ℕ} :
    db.chunkHash x i = db.chunkHash y j ↔
      i = j ∧ x.take ((i + 1) * db.chunkSize) = y.take ((i + 1) * db.chunkSize) := by
  rw [chunkHash, chunkHash, hfree.foldl_eq_iff]
  constructor
  · intro h
    have hij : i = j := by simpa using congrArg length h
    subst hij
    exact ⟨rfl, (db.map_chunk_eq_iff x y (i + 1)).mp h⟩
  · rintro ⟨rfl, h⟩
    exact (db.map_chunk_eq_iff x y (i + 1)).mpr h

theorem take_endIdx :
    tokens.take (db.endIdx tokens chunkId) = tokens.take ((chunkId + 1) * db.chunkSize) := by
  rw [endIdx, ← succ_mul, ← take_take, take_length]

theorem agree_iff_endIdx {i j : ℕ} (hi : i < db.numChunks x) (hj : j < db.numChunks y) :
    (i = j ∧ x.take ((i + 1) * db.chunkSize) = y.take ((i + 1) * db.chunkSize)) ↔
      db.endIdx x i = db.endIdx y j ∧ x.take (db.endIdx x i) = y.take (db.endIdx x i) := by
  have hx := (db.lt_numChunks_iff x i).mp hi
  have hy := (db.lt_numChunks_iff y j).mp hj
  have hxlen := db.effectiveLen_le x
  have hylen := db.effectiveLen_le y
  have hpos := db.chunkSizePos
  constructor
  · rintro ⟨rfl, h⟩
    have hend : db.endIdx x i = db.endIdx y i := by
      have := congrArg length h
      rw [length_take, length_take] at this
      rw [endIdx, endIdx, ← succ_mul]
      exact this
    refine ⟨hend, ?_⟩
    rw [take_endIdx, hend, take_endIdx, h]
  · rintro ⟨hend, h⟩
    have hij : i = j := by
      rcases lt_trichotomy i j with hlt | heq | hgt
      · have := mul_le_mul_right db.chunkSize (succ_le_of_lt hlt)
        rw [succ_mul] at this
        simp only [endIdx] at hend
        omega
      · exact heq
      · have := mul_le_mul_right db.chunkSize (succ_le_of_lt hgt)
        rw [succ_mul] at this
        simp only [endIdx] at hend
        omega
    subst hij
    refine ⟨rfl, ?_⟩
    rw [← take_endIdx, h, hend, take_endIdx]

theorem prefixHashes_sound (hinj : Function.Injective db.hashFunc)
    (hfresh : ∀ a, db.hashFunc a ≠ db.noneHash) {x y : List ℕ} {maskX maskY : Option (List Bool)}
    {segmentsX segmentsY : List (ℕ × ℕ × H)}
    (hx : db.processTokens id (some x) none none maskX = .ok segmentsX)
    (hy : db.processTokens id (some y) none none maskY = .ok segmentsY) :
    Consecutive (numFalses maskX) (max (numFalses maskX) (db.effectiveLen x)) segmentsX ∧
      ((∀ m ∈ maskX, m.length = x.length) → numFalses maskX ≤ db.effectiveLen x) ∧
      ∀ (i j sx ex : ℕ) (hashX : H) (sy ey : ℕ) (hashY : H), segmentsX[i]? = some (sx, ex, hashX) →
        segmentsY[j]? = some (sy, ey, hashY) →
        (hashX = hashY ↔ ex = ey ∧ x.take ex = y.take ex) := by
  refine ⟨db.consecutive_of_processTokens hx, fun hlen => ?_, ?_⟩
  · obtain ⟨skipped, hskipped, _⟩ := db.processTokens_ok hx
    apply db.numFalses_le_effectiveLen _ hlen
    rw [hskipped, mul_mod_left]
  · intro i j sx ex hashX sy ey hashY hi hj
    obtain ⟨_, hltX, hendX, hhashX⟩ := db.getElem?_processTokens hx hi
    obtain ⟨_, hltY, hendY, hhashY⟩ := db.getElem?_processTokens hy hj
    rw [hhashX, hhashY, hendX, hendY]
    exact (chunkHash_eq_iff (collisionFree_chainStep hinj hfresh)).trans
      (agree_iff_endIdx hltX hltY)

def spelled (chunkSize : ℕ) (saveUnfullChunk : Bool) (chunkSizePos : 0 < chunkSize) :
    ChunkedTokenDatabase (List (List ℕ × List ℕ)) ℕ where
  chunkSize := chunkSize
  saveUnfullChunk := saveUnfullChunk
  noneHash := []
  hashFunc a := (a.2.1, a.2.2) :: a.1
  chunkSizePos := chunkSizePos

theorem spelled_injective (chunkSize : ℕ) (saveUnfullChunk : Bool) (chunkSizePos : 0 < chunkSize) :
    Function.Injective (spelled chunkSize saveUnfullChunk chunkSizePos).hashFunc := by
  rintro ⟨h, tokens, extra⟩ ⟨h', tokens', extra'⟩ heq
  simp only [spelled, cons.injEq, Prod.mk.injEq] at heq
  obtain ⟨⟨rfl, rfl⟩, rfl⟩ := heq
  rfl

theorem prefixHashes_sound_ragged :
    (spelled 2 true (by decide)).processTokens id (some [1, 2, 3]) none none
        (some [false, false, true]) = .ok [(2, 3, [([3], []), ([1, 2], [])])] ∧
      Consecutive 2 3 [(2, 3, [([3], ([] : List ℕ)), ([1, 2], [])])] ∧
      ([([3], ([] : List ℕ)), ([1, 2], [])] = [([3, 4], []), ([1, 2], [])] ↔
        3 = 4 ∧ [1, 2, 3].take 3 = [1, 2, 3, 4].take 3) := by
  have hx : (spelled 2 true (by decide)).processTokens id (some [1, 2, 3]) none none
      (some [false, false, true]) = .ok [(2, 3, [([3], []), ([1, 2], [])])] := by rfl
  have hy : (spelled 2 true (by decide)).processTokens id (some [1, 2, 3, 4]) none none none =
      .ok [(0, 2, [([1, 2], [])]), (2, 4, [([3, 4], []), ([1, 2], [])])] := by rfl
  have h := prefixHashes_sound (spelled_injective 2 true (by decide)) (fun _ => cons_ne_nil _ _)
    hx hy
  exact ⟨hx, h.1, h.2.2 0 1 _ _ _ _ _ _ rfl rfl⟩

end ChunkedTokenDatabase

end LMCache
