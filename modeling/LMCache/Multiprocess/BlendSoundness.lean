import LMCache.Multiprocess.BlendMatcher

namespace LMCache

open BlendHash List Nat

namespace BlendHash

variable {tableId : Dict ℕ ℕ} {numIds : ℕ}

def Hit (tableId : Dict ℕ ℕ) (hash : BitVec 64) (cid : ℕ) : Prop :=
  tableId.get? (tableIndex hash) = some cid

instance (tableId : Dict ℕ ℕ) (hash : BitVec 64) (cid : ℕ) : Decidable (Hit tableId hash cid) :=
  inferInstanceAs (Decidable (_ = _))

variable {hashes : List (BitVec 64)}

theorem uniqueHits_of_lt (seen : List ℕ)
    (h : ∀ hash ∈ hashes, ∀ cid, Hit tableId hash cid → cid < numIds) :
    ∃ ids, uniqueHitsDirectIdNumba tableId numIds hashes seen = some ids ∧ ids.Nodup ∧
      ∀ cid, cid ∈ ids ↔ cid ∉ seen ∧ ∃ hash ∈ hashes, Hit tableId hash cid := by
  induction hashes generalizing seen with
  | nil => exact ⟨[], rfl, nodup_nil, by simp⟩
  | cons hash hashes ih =>
    have hrest : ∀ hash ∈ hashes, ∀ cid, Hit tableId hash cid → cid < numIds := fun hash' hmem =>
      h hash' (mem_cons_of_mem _ hmem)
    rw [uniqueHitsDirectIdNumba]
    cases hslot : tableId.get? (tableIndex hash) with
    | none =>
      obtain ⟨ids, hids, hnodup, hmem⟩ := ih seen hrest
      refine ⟨ids, hids, hnodup, fun cid => ?_⟩
      rw [hmem cid]
      simp [Hit, hslot]
    | some hit =>
      have hlt : hit < numIds := h hash mem_cons_self hit hslot
      simp only [if_neg (not_le.mpr hlt)]
      split_ifs with hseen
      · obtain ⟨ids, hids, hnodup, hmem⟩ := ih seen hrest
        refine ⟨ids, hids, hnodup, fun cid => ?_⟩
        have hother : cid ∉ seen → ¬ Hit tableId hash cid := fun hnot hhit =>
          hnot (Option.some.inj (hslot.symm.trans hhit) ▸ hseen)
        rw [hmem cid, exists_mem_cons_iff]
        tauto
      · obtain ⟨ids, hids, hnodup, hmem⟩ := ih (hit :: seen) hrest
        refine ⟨hit :: ids, by rw [hids, Option.map_some], ?_, fun cid => ?_⟩
        · exact nodup_cons.mpr
            ⟨fun hagain => ((hmem hit).mp hagain).1 mem_cons_self, hnodup⟩
        · have hself : Hit tableId hash cid ↔ cid = hit := by
            rw [Hit, hslot, Option.some.injEq, eq_comm]
          rw [mem_cons, hmem cid, exists_mem_cons_iff, mem_cons, hself]
          by_cases hcid : cid = hit
          · simp [hcid, hseen]
          · simp [hcid]

theorem uniqueHits_lt {seen ids : List ℕ}
    (h : uniqueHitsDirectIdNumba tableId numIds hashes seen = some ids)
    (hseen : ∀ cid ∈ seen, cid < numIds) :
    ∀ hash ∈ hashes, ∀ cid, Hit tableId hash cid → cid < numIds := by
  induction hashes generalizing seen ids with
  | nil => exact fun hash hmem => absurd hmem not_mem_nil
  | cons hash hashes ih =>
    rw [uniqueHitsDirectIdNumba] at h
    rw [forall_mem_cons]
    cases hslot : tableId.get? (tableIndex hash) with
    | none =>
      simp only [hslot] at h
      exact ⟨fun cid hcid => by simp [Hit, hslot] at hcid, ih h hseen⟩
    | some hit =>
      simp only [hslot] at h
      split_ifs at h with hle hmem
      all_goals
        refine ⟨fun cid hcid => ?_, ?_⟩
        · rw [← Option.some.inj (hslot.symm.trans hcid)]
          exact not_le.mp hle
      · exact ih h hseen
      · obtain ⟨rest, hrest, -⟩ := Option.map_eq_some_iff.mp h
        exact ih hrest (forall_mem_cons.mpr ⟨not_le.mp hle, hseen⟩)

def firstPosition (tableId : Dict ℕ ℕ) (hashes : List (BitVec 64)) (cid : ℕ) : Option ℕ :=
  hashes.findIdx? fun hash => decide (Hit tableId hash cid)

end BlendHash

namespace BlendTokenRangeMatcher

variable {hitIds : List ℕ}

theorem get?_of_length {d : Dict ℕ ℕ} (hkeys : ∀ cid ∈ d.keys, cid ∈ hitIds)
    (hlength : d.items.length = hitIds.length) {cid : ℕ} (hcid : cid ∈ hitIds) :
    (d.get? cid).isSome := by
  have hperm : d.keys.Perm hitIds :=
    (subperm_of_subset d.nodup hkeys).perm_of_length_le (by rw [← hlength]; exact (length_map _).ge)
  exact (d.contains_iff cid).mpr (hperm.mem_iff.mpr hcid)

theorem position_cons (tableId : Dict ℕ ℕ) (hash : BitVec 64) (hashes : List (BitVec 64))
    (cid q : ℕ) :
    (firstPosition tableId (hash :: hashes) cid).map (· + q) =
      if Hit tableId hash cid then some q
      else (firstPosition tableId hashes cid).map (· + (q + 1)) := by
  rw [firstPosition, findIdx?_cons, ← firstPosition]
  simp only [decide_eq_true_eq]
  split_ifs with hhit
  · rw [Option.map_some, zero_add]
  · rw [Option.map_map]
    refine congrArg (Option.map · _) (funext fun i => ?_)
    rw [Function.comp_apply, add_assoc, add_comm 1 q]

theorem get?_firstPositions {tableId : Dict ℕ ℕ} {hashes : List (BitVec 64)} {q : ℕ} {d : Dict ℕ ℕ}
    (hkeys : ∀ cid ∈ d.keys, cid ∈ hitIds) {cid : ℕ} (hcid : cid ∈ hitIds) :
    (firstPositions tableId hitIds hashes q d).get? cid =
      (d.get? cid).or ((firstPosition tableId hashes cid).map (· + q)) := by
  induction hashes generalizing q d with
  | nil => rw [firstPositions, firstPosition, findIdx?_nil, Option.map_none, Option.or_none]
  | cons hash hashes ih =>
    rw [firstPositions, position_cons]
    cases hslot : tableId.get? (tableIndex hash) with
    | none =>
      have hmiss : ¬ Hit tableId hash cid := by simp [Hit, hslot]
      rw [if_neg hmiss]
      exact ih hkeys
    | some hit =>
      have hself : Hit tableId hash cid ↔ hit = cid := by rw [Hit, hslot, Option.some.injEq]
      simp only [hself]
      by_cases hnew : hit ∈ hitIds ∧ ¬ d.contains hit
      · obtain ⟨hmem, hcontains⟩ := hnew
        have habsent : d.get? hit = none := by simpa [Dict.contains] using hcontains
        have hkeys' : ∀ cid ∈ (d.set hit q).keys, cid ∈ hitIds := fun cid' h => by
          rcases (d.mem_keys_set hit cid' q).mp h with rfl | hold
          · exact hmem
          · exact hkeys cid' hold
        have hset : ∀ later : Option ℕ, ((d.set hit q).get? cid).or later =
            (d.get? cid).or (if hit = cid then some q else later) := fun later => by
          rw [Dict.get?_set]
          split_ifs with hcase
          · rw [← hcase, habsent]
            rfl
          · rfl
        rw [if_pos ⟨hmem, hcontains⟩, ← hset]
        split_ifs with hdone
        · rw [Option.or_of_isSome (get?_of_length hkeys' hdone hcid)]
        · exact ih hkeys'
      · rw [if_neg hnew, ih hkeys]
        split_ifs with hcase
        · have hhad : (d.get? cid).isSome := by
            subst hcase
            by_contra hnone
            exact hnew ⟨hcid, hnone⟩
          rw [Option.or_of_isSome hhad, Option.or_of_isSome hhad]
        · rfl

variable {B : Type} [DecidableEq B]

theorem mem_matchResults {m : BlendTokenRangeMatcher B} {positions : Dict ℕ ℕ}
    {results : List (CBMatchResult B)} (h : m.matchResults positions hitIds = some results)
    (r : CBMatchResult B) :
    r ∈ results ↔ ∃ cid ∈ hitIds, ∃ th oldSt curSt, m.chunkTokenHash[cid]? = some th ∧
      m.tokenHashToStart.get? th = some oldSt ∧ positions.get? cid = some curSt ∧
      r = ⟨oldSt, oldSt + m.chunkSize, curSt, curSt + m.chunkSize, th⟩ := by
  induction hitIds generalizing results with
  | nil =>
    rw [matchResults, Option.some.injEq] at h
    simp [← h]
  | cons cid hitIds ih =>
    rw [matchResults] at h
    rw [exists_mem_cons_iff]
    cases hhash : m.chunkTokenHash[cid]? with
    | none => simp [hhash] at h
    | some th =>
      simp only [hhash, Option.map_eq_some_iff] at h
      obtain ⟨rest, hrest, rfl⟩ := h
      rw [← ih hrest]
      cases hold : m.tokenHashToStart.get? th with
      | none => simp [hold]
      | some oldSt =>
        cases hcur : positions.get? cid with
        | none => simp
        | some curSt => simp [hold]

theorem matchResults_isSome {m : BlendTokenRangeMatcher B} (positions : Dict ℕ ℕ)
    (h : ∀ cid ∈ hitIds, cid < m.chunkTokenHash.length) :
    (m.matchResults positions hitIds).isSome := by
  induction hitIds with
  | nil => rfl
  | cons cid hitIds ih =>
    obtain ⟨hcid, hrest⟩ := forall_mem_cons.mp h
    rw [matchResults, getElem?_eq_getElem hcid]
    simpa using ih hrest

end BlendTokenRangeMatcher

open RollingHash

namespace BlendTokenRangeMatcher

variable {B : Type} [DecidableEq B] {m : BlendTokenRangeMatcher B}
  {chunks : List (List (BitVec 64) × B)} {query : List (BitVec 64)}

def firstWith (k : ℕ) (query : List (BitVec 64)) (index : ℕ) : Option ℕ :=
  (windows k query).findIdx? fun window => decide (windowIndex window = index)

def AllSeen (chunks : List (List (BitVec 64) × B)) (k : ℕ) (query : List (BitVec 64)) : Prop :=
  ∀ window ∈ windows k query, ∀ hit, lastWith chunks (windowIndex window) = some hit →
    hit.2 < tableSize

theorem hit_iff (h : Indexed m chunks) (window : List (BitVec 64)) (cid : ℕ) :
    Hit m.tableId (polyHash base window) cid ↔
      ∃ hit, lastWith chunks (windowIndex window) = some hit ∧ hit.2 = cid := by
  rw [Hit, ← windowIndex, h.table, Option.map_eq_some_iff]

variable {hit : (List (BitVec 64) × B) × ℕ}

theorem hit_last_iff (h : Indexed m chunks) {index : ℕ} (hlast : lastWith chunks index = some hit)
    (window : List (BitVec 64)) :
    Hit m.tableId (polyHash base window) hit.2 ↔ windowIndex window = index := by
  rw [hit_iff h]
  constructor
  · rintro ⟨hit', hlast', hsame⟩
    obtain ⟨hchunk, hindex⟩ := lastWith_eq_some hlast
    obtain ⟨hchunk', hindex'⟩ := lastWith_eq_some hlast'
    rw [hsame, hchunk] at hchunk'
    rw [← hindex', ← Option.some.inj hchunk', hindex]
  · rintro rfl
    exact ⟨hit, hlast, rfl⟩

theorem firstPosition_eq (h : Indexed m chunks) {index : ℕ}
    (hlast : lastWith chunks index = some hit) (k : ℕ) (query : List (BitVec 64)) :
    firstPosition m.tableId ((windows k query).map (polyHash base)) hit.2 =
      firstWith k query index := by
  rw [firstPosition, findIdx?_map, firstWith]
  refine congrArg (findIdx? · _) (funext fun window => ?_)
  exact decide_eq_decide.mpr (hit_last_iff h hlast window)

theorem allSeen_iff (h : Indexed m chunks) {k : ℕ} :
    AllSeen chunks k query ↔ ∀ hash ∈ (windows k query).map (polyHash base), ∀ cid,
      Hit m.tableId hash cid → cid < tableSize := by
  rw [forall_mem_map]
  refine forall₂_congr fun window _ => ?_
  simp only [hit_iff h]
  constructor
  · rintro hall cid ⟨hit, hlast, rfl⟩
    exact hall hit hlast
  · intro hall hit hlast
    exact hall hit.2 ⟨hit, hlast, rfl⟩

theorem no_windows (h : Indexed m chunks) (hearly : m.chunkTokenHash = [] ∨
    query.length < m.chunkSize) : chunks = [] ∨ windows m.chunkSize query = [] := by
  rcases hearly with hempty | hshort
  · rw [h.hashes] at hempty
    exact .inl (map_eq_nil_iff.mp hempty)
  · exact .inr (windows_of_lt hshort)

theorem allSeen_of_some (h : Indexed m chunks) {results : List (CBMatchResult B)}
    (hresults : m.matchSubSequence query = some results) : AllSeen chunks m.chunkSize query := by
  rw [matchSubSequence] at hresults
  split_ifs at hresults with hearly
  · rcases no_windows h hearly with rfl | hnone
    · exact fun window _ hit hlast => by simp [lastWith] at hlast
    · exact fun window hmem => by simp [hnone] at hmem
  · have hlong : m.chunkSize ≤ query.length := not_lt.mp fun hlt => hearly (.inr hlt)
    rw [allSeen_iff h, ← rollingHashes_eq base m.chunkSizePos hlong]
    obtain ⟨ids, hids, -⟩ := Option.bind_eq_some_iff.mp hresults
    exact uniqueHits_lt hids fun cid hcid => absurd hcid not_mem_nil

theorem results_of_allSeen (h : Indexed m chunks) (hseen : AllSeen chunks m.chunkSize query) :
    ∃ results, m.matchSubSequence query = some results ∧ ∀ r, r ∈ results ↔
      ∃ index p hit oldSt, firstWith m.chunkSize query index = some p ∧
        lastWith chunks index = some hit ∧ m.tokenHashToStart.get? hit.1.2 = some oldSt ∧
        r = ⟨oldSt, oldSt + m.chunkSize, p, p + m.chunkSize, hit.1.2⟩ := by
  rw [matchSubSequence]
  split_ifs with hearly
  · refine ⟨[], rfl, fun r => ⟨fun hr => absurd hr not_mem_nil, ?_⟩⟩
    rintro ⟨index, p, hit, oldSt, hfirst, hlast, -⟩
    rcases no_windows h hearly with rfl | hnone
    · simp [lastWith] at hlast
    · simp [firstWith, hnone] at hfirst
  · have hlong : m.chunkSize ≤ query.length := not_lt.mp fun hlt => hearly (.inr hlt)
    simp only [rollingHashWindowsNumba, rollingHashes_eq base m.chunkSizePos hlong]
    obtain ⟨ids, hids, -, hmem⟩ := uniqueHits_of_lt [] ((allSeen_iff h).mp hseen)
    have hrange : ∀ cid ∈ ids, cid < m.chunkTokenHash.length := by
      intro cid hcid
      obtain ⟨-, hash, hhash, hhit⟩ := (hmem cid).mp hcid
      obtain ⟨window, -, rfl⟩ := mem_map.mp hhash
      obtain ⟨hit, hlast, rfl⟩ := (hit_iff h window cid).mp hhit
      rw [h.hashes, length_map]
      exact (List.getElem?_eq_some_iff.mp (lastWith_eq_some hlast).1).1
    obtain ⟨results, hresults⟩ := Option.isSome_iff_exists.mp (matchResults_isSome
      (firstPositions m.tableId ids ((windows m.chunkSize query).map (polyHash base)) 0 .empty)
      hrange)
    have hmatched : (if ids = [] then some [] else m.matchResults
        (firstPositions m.tableId ids ((windows m.chunkSize query).map (polyHash base)) 0 .empty)
        ids) = some results := by
      split_ifs with hempty
      · rw [← hresults, hempty]
        rfl
      · exact hresults
    refine ⟨results, ?_, fun r => ?_⟩
    · rw [hids, Option.bind_some, hmatched]
    · rw [mem_matchResults hresults r]
      have hposition : ∀ {index hit}, lastWith chunks index = some hit → hit.2 ∈ ids →
          (firstPositions m.tableId ids ((windows m.chunkSize query).map (polyHash base)) 0
            .empty).get? hit.2 = firstWith m.chunkSize query index := by
        intro index hit hlast hcid
        rw [get?_firstPositions (fun cid hkey => absurd hkey not_mem_nil) hcid,
          firstPosition_eq h hlast, Dict.get?_empty, Option.none_or]
        exact Option.map_id'
      have hhash : ∀ {index hit}, lastWith chunks index = some hit →
          m.chunkTokenHash[hit.2]? = some hit.1.2 := by
        intro index hit hlast
        rw [h.hashes, getElem?_map, (lastWith_eq_some hlast).1, Option.map_some]
      constructor
      · rintro ⟨cid, hcid, th, oldSt, curSt, hth, hold, hcur, rfl⟩
        obtain ⟨-, hash, hmemhash, hhit⟩ := (hmem cid).mp hcid
        obtain ⟨window, -, rfl⟩ := mem_map.mp hmemhash
        obtain ⟨hit, hlast, rfl⟩ := (hit_iff h window cid).mp hhit
        rw [hhash hlast, Option.some.injEq] at hth
        rw [hposition hlast hcid] at hcur
        subst hth
        exact ⟨_, curSt, hit, oldSt, hcur, hlast, hold, rfl⟩
      · rintro ⟨index, p, hit, oldSt, hfirst, hlast, hold, rfl⟩
        obtain ⟨hp, hindex, -⟩ := findIdx?_eq_some_iff_getElem.mp hfirst
        have hcid : hit.2 ∈ ids := by
          refine (hmem hit.2).mpr ⟨not_mem_nil, _, mem_map_of_mem (getElem_mem hp), ?_⟩
          exact (hit_last_iff h hlast _).mpr (of_decide_eq_true hindex)
        exact ⟨hit.2, hcid, hit.1.2, oldSt, p, hhash hlast, hold,
          (hposition hlast hcid).trans hfirst, rfl⟩

def SoundMatches {chunkSize : ℕ} (chunkSizePos : 0 < chunkSize)
    (registrations : List (ChunkRegistration B chunkSize)) (query : List (BitVec 64)) : Prop :=
  ∀ results, (registerAll chunkSizePos registrations).matchSubSequence query = some results →
    ∀ r ∈ results, ∀ chunk ∈ registered registrations, chunk.2 = r.hash →
      Slice.slice query r.curSt r.curEd = chunk.1

def NoFalseHit {chunkSize : ℕ} (registrations : List (ChunkRegistration B chunkSize))
    (query : List (BitVec 64)) : Prop :=
  ∀ index p hit, firstWith chunkSize query index = some p →
    lastWith (registered registrations) index = some hit →
      ∀ chunk ∈ registered registrations, chunk.2 = hit.1.2 →
        Slice.slice query p (p + chunkSize) = chunk.1

theorem soundMatches_iff {chunkSize : ℕ} (chunkSizePos : 0 < chunkSize)
    (registrations : List (ChunkRegistration B chunkSize)) (query : List (BitVec 64)) :
    SoundMatches chunkSizePos registrations query ↔
      (AllSeen (registered registrations) chunkSize query → NoFalseHit registrations query) := by
  obtain ⟨hindexed, hsize⟩ := indexed_registerAll chunkSizePos registrations
  rw [SoundMatches]
  generalize registerAll chunkSizePos registrations = m at hindexed hsize
  subst hsize
  constructor
  · intro hsound hseen index p hit hfirst hlast chunk hchunk hhash
    obtain ⟨results, hresults, hmem⟩ := results_of_allSeen hindexed hseen
    obtain ⟨oldSt, hold⟩ := Option.isSome_iff_exists.mp
      (hindexed.starts hit.1 (mem_of_getElem? (lastWith_eq_some hlast).1))
    exact hsound results hresults _
      ((hmem _).mpr ⟨index, p, hit, oldSt, hfirst, hlast, hold, rfl⟩) chunk hchunk hhash
  · intro hcondition results hresults r hr chunk hchunk hhash
    have hseen := allSeen_of_some hindexed hresults
    obtain ⟨results', hresults', hmem⟩ := results_of_allSeen hindexed hseen
    rw [Option.some.inj (hresults.symm.trans hresults')] at hr
    obtain ⟨index, p, hit, oldSt, hfirst, hlast, -, rfl⟩ := (hmem r).mp hr
    exact hcondition hseen index p hit hfirst hlast chunk hchunk hhash

theorem soundMatches_same_chunk : SoundMatches Nat.two_pos [⟨[5, 9], ["hash"], rfl⟩] [5, 9] := by
  refine (soundMatches_iff Nat.two_pos _ _).mpr fun _ index p hit hfirst _ chunk hchunk _ => ?_
  have hchunk : chunk ∈ [(([5, 9] : List (BitVec 64)), "hash")] := hchunk
  obtain ⟨hp, -⟩ := findIdx?_eq_some_iff_getElem.mp hfirst
  obtain rfl : p = 0 := lt_one_iff.mp hp
  rw [mem_singleton.mp hchunk]
  rfl

theorem not_soundMatches_truncated :
    ¬ SoundMatches Nat.two_pos [⟨[0, 0], ["hash"], rfl⟩] [3, 35777] := by
  intro hsound
  have hchunk := hsound [⟨0, 2, 0, 2, "hash"⟩] (by decide +kernel) _ mem_cons_self
    ([0, 0], "hash") (by decide) rfl
  exact absurd hchunk (by decide)

end BlendTokenRangeMatcher

namespace BlendTokenRangeMatcher

variable {B : Type} [DecidableEq B] {chunkSize : ℕ}

def compactIds (m : BlendTokenRangeMatcher B) (tokenIds : List (BitVec 64)) : List ℕ :=
  range' m.chunkTokenHash.length (chunkHashWindowsNumba tokenIds m.chunkSize base).length

def writtenIds (m : BlendTokenRangeMatcher B) :
    List (ChunkRegistration B chunkSize) → List ℕ
  | [] => []
  | r :: registrations =>
      m.compactIds r.tokenIds ++
        writtenIds (m.onNewTokenHashes r.tokenIds r.tokenHashes) registrations

def IdsInTable (chunkSizePos : 0 < chunkSize)
    (registrations : List (ChunkRegistration B chunkSize)) : Prop :=
  (∀ id ∈ writtenIds (create chunkSize chunkSizePos) registrations, id < tableSize) ∧
    ∀ query, (registerAll chunkSizePos registrations).matchSubSequence query ≠ none

variable (r : ChunkRegistration B chunkSize)

omit [DecidableEq B] in
theorem length_chunks : r.chunks.length = r.tokenIds.length / chunkSize := by
  rw [← r.oneForEach, ← r.tokenHashes_eq, length_map]

omit [DecidableEq B] in
theorem registered_cons (registrations : List (ChunkRegistration B chunkSize)) :
    registered (r :: registrations) = r.chunks ++ registered registrations := flatMap_cons

variable {m : BlendTokenRangeMatcher B} {chunks : List (List (BitVec 64) × B)}

theorem Indexed.compactIds_eq (h : Indexed m chunks) (r : ChunkRegistration B m.chunkSize) :
    m.compactIds r.tokenIds = range' chunks.length r.chunks.length := by
  rw [compactIds, h.hashes, r.chunkHashes_eq, length_map, length_map]

theorem Indexed.writtenIds_eq (h : Indexed m chunks) (hsize : m.chunkSize = chunkSize)
    (registrations : List (ChunkRegistration B chunkSize)) :
    writtenIds m registrations = range' chunks.length (registered registrations).length := by
  induction registrations generalizing m chunks with
  | nil => rfl
  | cons r registrations ih =>
    subst hsize
    obtain ⟨hnext, hkept⟩ := h.onNewTokenHashes r
    rw [writtenIds, h.compactIds_eq r, ih hnext hkept, registered_cons, length_append,
      length_append, ← range'_append_1]

theorem writtenIds_eq (chunkSizePos : 0 < chunkSize)
    (registrations : List (ChunkRegistration B chunkSize)) :
    writtenIds (create chunkSize chunkSizePos) registrations =
      range (registered registrations).length := by
  have hcreated := (indexed_registerAll (B := B) chunkSizePos []).1
  rw [range_eq_range']
  exact hcreated.writtenIds_eq rfl registrations

omit [DecidableEq B] in
theorem allSeen_of_length (h : chunks.length ≤ tableSize) (k : ℕ) (query : List (BitVec 64)) :
    AllSeen chunks k query := by
  intro window _ hit hlast
  obtain ⟨hplace, -⟩ := List.getElem?_eq_some_iff.mp (lastWith_eq_some hlast).1
  exact lt_of_lt_of_le hplace h

omit [DecidableEq B] in
theorem length_registered (registrations : List (ChunkRegistration B chunkSize)) :
    (registered registrations).length =
      (registrations.map fun r => r.tokenIds.length / chunkSize).sum := by
  rw [registered, length_flatMap]
  exact congrArg sum (map_congr_left fun r _ => length_chunks r)

theorem idsInTable_iff (chunkSizePos : 0 < chunkSize)
    (registrations : List (ChunkRegistration B chunkSize)) :
    IdsInTable chunkSizePos registrations ↔
      (registrations.map fun r => r.tokenIds.length / chunkSize).sum ≤ tableSize := by
  rw [IdsInTable, writtenIds_eq chunkSizePos registrations, ← length_registered]
  constructor
  · rintro ⟨hids, -⟩
    by_contra hmore
    exact lt_irrefl _ (hids tableSize (mem_range.mpr (not_le.mp hmore)))
  · intro hlength
    refine ⟨fun id hid => lt_of_lt_of_le (mem_range.mp hid) hlength, fun query => ?_⟩
    obtain ⟨hindexed, -⟩ := indexed_registerAll chunkSizePos registrations
    obtain ⟨results, hresults, -⟩ :=
      results_of_allSeen hindexed (allSeen_of_length hlength _ query)
    rw [hresults]
    exact Option.some_ne_none results

theorem match_last_eq_none {chunk : List (BitVec 64) × B} (h : Indexed m (chunks ++ [chunk]))
    (hlength : tableSize ≤ chunks.length) {query : List (BitVec 64)}
    (hwindow : chunk.1 ∈ windows m.chunkSize query) : m.matchSubSequence query = none := by
  have hlast : lastWith (chunks ++ [chunk]) (windowIndex chunk.1) =
      some (chunk, chunks.length) := by
    rw [lastWith_append, zipIdx_singleton, filter_singleton]
    simp
  by_contra hsome
  obtain ⟨results, hresults⟩ := Option.ne_none_iff_exists'.mp hsome
  have hlt := allSeen_of_some h hresults chunk.1 hwindow _ hlast
  exact absurd hlength (not_le.mpr hlt)

theorem idsInTable_same_twice :
    IdsInTable Nat.two_pos [⟨[5, 9], ["hash"], rfl⟩, ⟨[5, 9, 5], ["hash"], rfl⟩] :=
  (idsInTable_iff Nat.two_pos _).mpr (by decide)

def oneChunk : ChunkRegistration String 1 := ⟨[0], ["hash"], rfl⟩

theorem registered_replicate (n : ℕ) :
    registered (replicate n oneChunk) = replicate n ([0], "hash") := by
  induction n with
  | zero => rfl
  | succ n ih =>
    rw [replicate_succ, registered_cons, ih, replicate_succ]
    rfl

theorem not_idsInTable_repeated :
    ¬ IdsInTable Nat.one_pos (replicate (tableSize + 1) oneChunk) ∧
      (registerAll Nat.one_pos (replicate (tableSize + 1) oneChunk)).matchSubSequence [0] =
        none := by
  constructor
  · rw [idsInTable_iff, ← length_registered, registered_replicate, length_replicate]
    exact not_succ_le_self tableSize
  · obtain ⟨hindexed, hsize⟩ :=
      indexed_registerAll Nat.one_pos (replicate (tableSize + 1) oneChunk)
    have hsplit : replicate (tableSize + 1) (([0] : List (BitVec 64)), "hash") =
        replicate tableSize ([0], "hash") ++ [([0], "hash")] := replicate_succ'
    rw [registered_replicate, hsplit] at hindexed
    refine match_last_eq_none hindexed (length_replicate.ge) ?_
    rw [hsize]
    decide

end BlendTokenRangeMatcher

end LMCache
