import LMCache.Foundations.Dict
import LMCache.Foundations.Hashes
import Mathlib.Data.BitVec

namespace LMCache

open List RollingHash

structure CBMatchResult (B : Type) where
  oldSt : ℕ
  oldEd : ℕ
  curSt : ℕ
  curEd : ℕ
  hash : B
  deriving DecidableEq, Repr

namespace BlendHash

def tableBits : ℕ := 20

def tableSize : ℕ := 1 <<< tableBits

def base : BitVec 64 := 0x9E3779B97F4A7C15

def mask : BitVec 64 := BitVec.ofNat 64 (tableSize - 1)

def tableIndex (hash : BitVec 64) : ℕ := (hash &&& mask).toNat

def rollingHashWindowsNumba (arr : List (BitVec 64)) (k : ℕ) (base : BitVec 64) :
    List (BitVec 64) :=
  rollingHashes base k arr

def chunkHashWindowsNumba (arr : List (BitVec 64)) (k : ℕ) (base : BitVec 64) : List (BitVec 64) :=
  (range (arr.length / k)).map fun w =>
    polyHash base (Slice.slice arr (w * k) (w * k + k))

def updateTableIdNumba (hashes : List (BitVec 64)) (tableId : Dict ℕ ℕ) (valsToUpdate : List ℕ) :
    Dict ℕ ℕ :=
  (hashes.zip valsToUpdate).foldl (fun tableId p => tableId.set (tableIndex p.1) p.2) tableId

def uniqueHitsDirectIdNumba (tableId : Dict ℕ ℕ) (numIds : ℕ) :
    List (BitVec 64) → List ℕ → Option (List ℕ)
  | [], _ => some []
  | hash :: hashes, seen =>
      match tableId.get? (tableIndex hash) with
      | none => uniqueHitsDirectIdNumba tableId numIds hashes seen
      | some hit =>
          if numIds ≤ hit then none
          else if hit ∈ seen then uniqueHitsDirectIdNumba tableId numIds hashes seen
          else (uniqueHitsDirectIdNumba tableId numIds hashes (hit :: seen)).map (hit :: ·)

end BlendHash

open BlendHash

structure BlendTokenRangeMatcher (B : Type) where
  chunkSize : ℕ
  tableId : Dict ℕ ℕ
  chunkTokenHash : List B
  tokenHashToStart : Dict B ℕ
  chunkSizePos : 0 < chunkSize

namespace BlendTokenRangeMatcher

variable {B : Type} [DecidableEq B]

def create (chunkSize : ℕ) (chunkSizePos : 0 < chunkSize) : BlendTokenRangeMatcher B :=
  ⟨chunkSize, .empty, [], .empty, chunkSizePos⟩

variable (m : BlendTokenRangeMatcher B)

def persist (p : B × ℕ) : BlendTokenRangeMatcher B :=
  { m with
    chunkTokenHash := m.chunkTokenHash ++ [p.1]
    tokenHashToStart := m.tokenHashToStart.set p.1 (p.2 * m.chunkSize) }

def onNewTokenHashes (tokenIds : List (BitVec 64)) (tokenHashes : List B) :
    BlendTokenRangeMatcher B :=
  let chunkHashes := chunkHashWindowsNumba tokenIds m.chunkSize base
  let n := chunkHashes.length
  if n = 0 then m
  else
    let baseId := m.chunkTokenHash.length
    let compactIds := range' baseId n
    (tokenHashes.take n).zipIdx.foldl persist
      { m with tableId := updateTableIdNumba chunkHashes m.tableId compactIds }

def firstPositions (tableId : Dict ℕ ℕ) (hitIds : List ℕ) :
    List (BitVec 64) → ℕ → Dict ℕ ℕ → Dict ℕ ℕ
  | [], _, cidToQueryPos => cidToQueryPos
  | hash :: rolling, qPos, cidToQueryPos =>
      match tableId.get? (tableIndex hash) with
      | none => firstPositions tableId hitIds rolling (qPos + 1) cidToQueryPos
      | some cid =>
          if cid ∈ hitIds ∧ ¬ cidToQueryPos.contains cid then
            let cidToQueryPos := cidToQueryPos.set cid qPos
            if cidToQueryPos.items.length = hitIds.length then cidToQueryPos
            else firstPositions tableId hitIds rolling (qPos + 1) cidToQueryPos
          else firstPositions tableId hitIds rolling (qPos + 1) cidToQueryPos

def matchResults (m : BlendTokenRangeMatcher B) (cidToQueryPos : Dict ℕ ℕ) :
    List ℕ → Option (List (CBMatchResult B))
  | [] => some []
  | cid :: hitIds =>
      match m.chunkTokenHash[cid]? with
      | none => none
      | some th =>
          (matchResults m cidToQueryPos hitIds).map fun results =>
            match m.tokenHashToStart.get? th, cidToQueryPos.get? cid with
            | some oldSt, some curSt =>
                ⟨oldSt, oldSt + m.chunkSize, curSt, curSt + m.chunkSize, th⟩ :: results
            | _, _ => results

def matchSubSequence (tokenIds : List (BitVec 64)) : Option (List (CBMatchResult B)) :=
  if m.chunkTokenHash = [] ∨ tokenIds.length < m.chunkSize then some []
  else
    let rolling := rollingHashWindowsNumba tokenIds m.chunkSize base
    (uniqueHitsDirectIdNumba m.tableId tableSize rolling []).bind fun hitIds =>
      if hitIds = [] then some []
      else m.matchResults (firstPositions m.tableId hitIds rolling 0 .empty) hitIds

end BlendTokenRangeMatcher

structure ChunkRegistration (B : Type) (chunkSize : ℕ) where
  tokenIds : List (BitVec 64)
  tokenHashes : List B
  oneForEach : tokenHashes.length = tokenIds.length / chunkSize

namespace ChunkRegistration

variable {B : Type} {chunkSize : ℕ} (r : ChunkRegistration B chunkSize)

def chunks : List (List (BitVec 64) × B) :=
  ((range (r.tokenIds.length / chunkSize)).map fun w =>
    Slice.slice r.tokenIds (w * chunkSize) (w * chunkSize + chunkSize)).zip r.tokenHashes

theorem chunkHashes_eq :
    chunkHashWindowsNumba r.tokenIds chunkSize base =
      r.chunks.map fun chunk => polyHash base chunk.1 := by
  have hfst : r.chunks.map Prod.fst = (range (r.tokenIds.length / chunkSize)).map fun w =>
      Slice.slice r.tokenIds (w * chunkSize) (w * chunkSize + chunkSize) := by
    apply map_fst_zip
    rw [length_map, length_range, r.oneForEach]
  have hmap := congrArg (map (polyHash base)) hfst
  rw [map_map, map_map] at hmap
  exact hmap.symm

theorem tokenHashes_eq : r.chunks.map Prod.snd = r.tokenHashes := by
  apply map_snd_zip
  rw [length_map, length_range, r.oneForEach]

end ChunkRegistration

namespace BlendTokenRangeMatcher

variable {B : Type} [DecidableEq B]

def registerAll {chunkSize : ℕ} (chunkSizePos : 0 < chunkSize)
    (registrations : List (ChunkRegistration B chunkSize)) : BlendTokenRangeMatcher B :=
  registrations.foldl (fun m r => m.onNewTokenHashes r.tokenIds r.tokenHashes)
    (create chunkSize chunkSizePos)

def registered {chunkSize : ℕ} (registrations : List (ChunkRegistration B chunkSize)) :
    List (List (BitVec 64) × B) :=
  registrations.flatMap ChunkRegistration.chunks

def windowIndex (tokens : List (BitVec 64)) : ℕ := tableIndex (polyHash base tokens)

def lastWith (chunks : List (List (BitVec 64) × B)) (index : ℕ) :
    Option ((List (BitVec 64) × B) × ℕ) :=
  (chunks.zipIdx.filter fun p => decide (windowIndex p.1.1 = index)).getLast?

structure Indexed (m : BlendTokenRangeMatcher B) (chunks : List (List (BitVec 64) × B)) : Prop where
  hashes : m.chunkTokenHash = chunks.map Prod.snd
  table : ∀ index, m.tableId.get? index = (lastWith chunks index).map Prod.snd
  starts : ∀ chunk ∈ chunks, (m.tokenHashToStart.get? chunk.2).isSome

omit [DecidableEq B] in
theorem get?_updateTableId (new : List (List (BitVec 64) × B)) (tableId : Dict ℕ ℕ)
    (baseId index : ℕ) :
    (updateTableIdNumba (new.map fun chunk => polyHash base chunk.1) tableId
        (range' baseId new.length)).get? index =
      ((((new.zipIdx baseId).filter fun p => decide (windowIndex p.1.1 = index)).getLast?).map
        Prod.snd).or (tableId.get? index) := by
  induction new generalizing tableId baseId with
  | nil => rfl
  | cons chunk new ih =>
    rw [updateTableIdNumba, map_cons, length_cons, range'_succ, zip_cons_cons, foldl_cons]
    have hrest := ih (tableId.set (windowIndex chunk.1) baseId) (baseId + 1)
    rw [updateTableIdNumba] at hrest
    refine hrest.trans ?_
    rw [Dict.get?_set, zipIdx_cons, filter_cons]
    by_cases hindex : windowIndex chunk.1 = index
    · simp only [hindex, decide_true, if_true]
      rw [getLast?_cons]
      cases ((new.zipIdx (baseId + 1)).filter _).getLast? with
      | none => rfl
      | some p => rfl
    · simp only [hindex, decide_false, if_false, Bool.false_eq_true]

theorem persisted (hashes : List B) (m : BlendTokenRangeMatcher B) (i : ℕ) :
    ((hashes.zipIdx i).foldl persist m).chunkTokenHash = m.chunkTokenHash ++ hashes ∧
      ((hashes.zipIdx i).foldl persist m).tableId = m.tableId ∧
      ((hashes.zipIdx i).foldl persist m).chunkSize = m.chunkSize ∧
      ∀ th, th ∈ hashes ∨ (m.tokenHashToStart.get? th).isSome →
        (((hashes.zipIdx i).foldl persist m).tokenHashToStart.get? th).isSome := by
  induction hashes generalizing m i with
  | nil => exact ⟨(append_nil _).symm, rfl, rfl, fun th h => h.resolve_left not_mem_nil⟩
  | cons hash hashes ih =>
    rw [zipIdx_cons, foldl_cons]
    obtain ⟨hchunks, htable, hsize, hstarts⟩ := ih (m.persist (hash, i)) (i + 1)
    refine ⟨hchunks.trans ?_, htable, hsize, fun th h => hstarts th ?_⟩
    · simp [persist]
    · simp only [persist, Dict.get?_set]
      rcases h with hmem | hold
      · rcases mem_cons.mp hmem with rfl | hlater
        · exact .inr (by simp)
        · exact .inl hlater
      · right
        split_ifs
        · rfl
        · exact hold

omit [DecidableEq B] in
theorem lastWith_append (chunks new : List (List (BitVec 64) × B)) (index : ℕ) :
    lastWith (chunks ++ new) index =
      (((new.zipIdx chunks.length).filter fun p =>
        decide (windowIndex p.1.1 = index)).getLast?).or (lastWith chunks index) := by
  rw [lastWith, zipIdx_append, filter_append, getLast?_append, Nat.zero_add]
  rfl

variable {chunks : List (List (BitVec 64) × B)}

theorem Indexed.onNewTokenHashes {m : BlendTokenRangeMatcher B} (h : Indexed m chunks)
    (r : ChunkRegistration B m.chunkSize) :
    Indexed (m.onNewTokenHashes r.tokenIds r.tokenHashes) (chunks ++ r.chunks) ∧
      (m.onNewTokenHashes r.tokenIds r.tokenHashes).chunkSize = m.chunkSize := by
  have hlength : m.chunkTokenHash.length = chunks.length := by rw [h.hashes, length_map]
  have htake : r.tokenHashes.take r.chunks.length = r.tokenHashes := by
    rw [← r.tokenHashes_eq, take_of_length_le (by rw [length_map])]
  rw [BlendTokenRangeMatcher.onNewTokenHashes, r.chunkHashes_eq]
  simp only [length_map, hlength, htake]
  split_ifs with hempty
  · rw [eq_nil_of_length_eq_zero hempty, append_nil]
    exact ⟨h, rfl⟩
  · obtain ⟨hhashes, htable, hsize, hstarts⟩ := persisted r.tokenHashes
      { m with
        tableId := updateTableIdNumba
          (r.chunks.map fun chunk => polyHash base chunk.1) m.tableId
          (range' chunks.length r.chunks.length) } 0
    refine ⟨⟨?_, fun index => ?_, fun chunk hchunk => hstarts chunk.2 ?_⟩, hsize⟩
    · rw [hhashes, map_append, r.tokenHashes_eq, h.hashes]
    · rw [htable, get?_updateTableId, lastWith_append, h.table, Option.map_or]
    · rcases mem_append.mp hchunk with hold | hnew
      · exact .inr (h.starts chunk hold)
      · rw [← r.tokenHashes_eq]
        exact .inl (mem_map_of_mem hnew)

theorem indexed_registerAll {chunkSize : ℕ} (chunkSizePos : 0 < chunkSize)
    (registrations : List (ChunkRegistration B chunkSize)) :
    Indexed (registerAll chunkSizePos registrations) (registered registrations) ∧
      (registerAll chunkSizePos registrations).chunkSize = chunkSize := by
  induction registrations using reverseRecOn with
  | nil => exact ⟨⟨rfl, fun index => rfl, fun chunk h => absurd h not_mem_nil⟩, rfl⟩
  | append_singleton registrations r ih =>
    obtain ⟨hindexed, hsize⟩ := ih
    rw [registerAll, foldl_append, ← registerAll, registered, flatMap_append, ← registered,
      flatMap_singleton]
    generalize registerAll chunkSizePos registrations = m at hindexed hsize
    subst hsize
    exact hindexed.onNewTokenHashes r

omit [DecidableEq B] in
theorem lastWith_eq_some {index : ℕ} {hit : (List (BitVec 64) × B) × ℕ}
    (h : lastWith chunks index = some hit) :
    chunks[hit.2]? = some hit.1 ∧ windowIndex hit.1.1 = index := by
  obtain ⟨hmem, hindex⟩ := mem_filter.mp (mem_of_getLast? h)
  exact ⟨mem_zipIdx_iff_getElem?.mp hmem, of_decide_eq_true hindex⟩

end BlendTokenRangeMatcher

end LMCache
