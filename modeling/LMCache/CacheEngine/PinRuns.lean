import LMCache.CacheEngine.PinRecords

namespace LMCache

open PinState List

variable {K : Type} [DecidableEq K]

namespace PinState

variable {st st' : PinState K} {lookupId location : String} {key : K} {keys : List K}
  {searchRange : Option (List String)} {blockMapping : List (String × List K)}

structure SameEntries (st st' : PinState K) : Prop where
  table : st'.table = st.table
  present : st'.present = st.present

omit [DecidableEq K] in
theorem SameEntries.trans {st'' : PinState K} (h : SameEntries st st') (h' : SameEntries st' st'') :
    SameEntries st st'' := ⟨h'.table.trans h.table, h'.present.trans h.present⟩

omit [DecidableEq K] in
theorem SameEntries.keepsPins (h : SameEntries st st') (location : String) :
    st'.keepsPins location = st.keepsPins location := keepsPins_congr (by rw [h.table])

omit [DecidableEq K] in
theorem SameEntries.unpinned_iff (h : SameEntries st st') :
    st'.Unpinned blockMapping ↔ st.Unpinned blockMapping := by
  simp only [Unpinned, h.keepsPins]

theorem sameEntries_pinBlocks (st : PinState K) (blockMapping : List (String × List K)) :
    SameEntries st (st.pinBlocks blockMapping) := by
  rw [pinBlocks_eq]
  exact ⟨rfl, rfl⟩

theorem lookupPins_pinBlocks (st : PinState K) (blockMapping : List (String × List K)) :
    (st.pinBlocks blockMapping).lookupPins = st.lookupPins := by
  rw [pinBlocks_eq]

theorem RecordedPresent.pinBlocks (h : st.RecordedPresent)
    (blockMapping : List (String × List K)) : (st.pinBlocks blockMapping).RecordedPresent := by
  have hsame := sameEntries_pinBlocks st blockMapping
  intro location key hkeeps hpos
  rw [hsame.present]
  rw [hsame.keepsPins] at hkeeps
  rw [lookupPins_pinBlocks] at hpos
  exact h location key hkeeps hpos

theorem RecordedPresent.extendPins (h : st.RecordedPresent)
    (hpresent : ∀ key ∈ keys, st.present location key = true) :
    (st.extendPins lookupId location keys).RecordedPresent := by
  intro location' key hkeeps hpos
  rw [recorded_extendPins] at hpos
  have hnil : blocksCount ([] : List (String × List K)) location' key = 0 := rfl
  rw [blocksCount_cons, hnil, Nat.add_zero] at hpos
  change st.present location' key = true
  dsimp only at hpos
  split_ifs at hpos with heq
  · subst heq
    rcases Nat.eq_zero_or_pos (keys.count key) with hzero | hcount
    · exact h location key hkeeps (by omega)
    · exact hpresent key (count_pos_iff.mp hcount)
  · exact h location' key hkeeps hpos

theorem RecordedPresent.assignPins (h : st.RecordedPresent)
    (hnodup : ((st.blockMapping keys searchRange).map Prod.fst).Nodup) :
    ((st.pinBlocks (st.blockMapping keys searchRange)).assignPins lookupId
      ⟨st.blockMapping keys searchRange, hnodup⟩).RecordedPresent := by
  have hsame := sameEntries_pinBlocks st (st.blockMapping keys searchRange)
  intro location key hkeeps hpos
  have hrecorded := recorded_assignPins (st.pinBlocks (st.blockMapping keys searchRange)) lookupId
    location key hnodup
  change (st.pinBlocks _).present location key = true
  change (st.pinBlocks _).keepsPins location = true at hkeeps
  rw [hsame.present]
  rw [hsame.keepsPins] at hkeeps
  rw [lookupPins_pinBlocks] at hrecorded
  rcases Nat.eq_zero_or_pos (blocksCount (st.blockMapping keys searchRange) location key)
    with hzero | hcount
  · exact h location key hkeeps (by omega)
  · exact present_of_blocksCount hcount

end PinState

namespace LookupConfig

variable {cfg : LookupConfig K} {st st' : PinState K} {lookupId : String}
  {searchRange : Option (List String)} {segments : List (ℕ × ℕ × K)} {res : ℕ}

def StopsUnpinned (cfg : LookupConfig K) (st : PinState K) (searchRange : Option (List String)) :
    List (ℕ × ℕ × K) → Prop
  | [] => True
  | (_, _, key) :: rest =>
      if (cfg.completeAt (st.blockMapping (cfg.splitLayers key) searchRange)).isSome then
        StopsUnpinned cfg st searchRange rest
      else st.Unpinned (st.blockMapping (cfg.splitLayers key) searchRange)

omit [DecidableEq K] in
theorem stopsUnpinned_congr (h : PinState.SameEntries st st') :
    cfg.StopsUnpinned st' searchRange segments ↔ cfg.StopsUnpinned st searchRange segments := by
  induction segments with
  | nil => exact Iff.rfl
  | cons segment segments ih =>
    obtain ⟨start, stop, key⟩ := segment
    rw [StopsUnpinned, StopsUnpinned, ih, h.unpinned_iff, blockMapping_congr h.table h.present]

omit [DecidableEq K] in
theorem completeAt_eq {key : K} {location : String} (h : cfg.completeAt
      (st.blockMapping (cfg.splitLayers key) searchRange) = some location) :
    st.blockMapping (cfg.splitLayers key) searchRange = [(location, cfg.splitLayers key)] := by
  unfold completeAt at h
  split at h
  · rename_i location' keys hblocks
    split_ifs at h with hhits
    obtain rfl := Option.some.inj h
    have hkeys := (st.mapKeys_spec (cfg.splitLayers key).length
      (st.table.getActiveStorageBackends none searchRange) (cfg.splitLayers key) 0).1
    rw [← blockMapping, hblocks, flatMap_singleton] at hkeys
    change keys <+: cfg.splitLayers key at hkeys
    rw [hblocks, hitChunks, map_singleton, sum_singleton] at hhits
    rw [hblocks, hkeys.eq_of_length (by rw [hhits, splitLayers, length_map, length_range])]
  · exact absurd h (by simp)

structure LookedUp (st st' : PinState K) (balanced : Prop) : Prop where
  same : PinState.SameEntries st st'
  present : st'.RecordedPresent
  surplus_iff : (∀ location key, st.keepsPins location = true →
    st'.surplus location key = st.surplus location key) ↔ balanced

theorem lookedUp_layers (hpresent : st.RecordedPresent) :
    LookedUp st (cfg.lookupLayers lookupId searchRange true segments res st).2
      (cfg.StopsUnpinned st searchRange segments) := by
  induction segments generalizing st res with
  | nil => exact ⟨⟨rfl, rfl⟩, hpresent, ⟨fun _ => trivial, fun _ _ _ _ => rfl⟩⟩
  | cons segment segments ih =>
    obtain ⟨start, stop, key⟩ := segment
    have hsame := sameEntries_pinBlocks st
      (st.blockMapping (cfg.splitLayers key) searchRange)
    rw [lookupLayers, StopsUnpinned]
    cases hcomplete : cfg.completeAt (st.blockMapping (cfg.splitLayers key) searchRange) with
    | none =>
      refine ⟨hsame, hpresent.pinBlocks _, ?_⟩
      simp only [Option.isSome_none, Bool.false_eq_true, if_false]
      rw [unpinned_iff (st.blocks_nonempty _ _)]
      refine forall_congr' fun location => forall_congr' fun key' =>
        imp_congr_right fun hkeeps => ?_
      simp only [batchedContains, if_true]
      rw [surplus_pinBlocks hkeeps]
      omega
    | some location =>
      have hblocks := completeAt_eq hcomplete
      simp only [if_true, Option.isSome_some]
      rw [batchedContains, if_pos rfl, hblocks]
      rw [hblocks] at hsame
      have hlayers : ∀ layer ∈ cfg.splitLayers key,
          (st.pinBlocks [(location, cfg.splitLayers key)]).present location layer = true := by
        rw [hsame.present]
        have hspec := (st.mapKeys_spec (cfg.splitLayers key).length
          (st.table.getActiveStorageBackends none searchRange) (cfg.splitLayers key) 0).2
        rw [← blockMapping, hblocks] at hspec
        exact (hspec _ mem_cons_self).2
      have hextended : PinState.SameEntries st ((st.pinBlocks [(location, cfg.splitLayers key)]).extendPins
          lookupId location (cfg.splitLayers key)) := hsame.trans ⟨rfl, rfl⟩
      have hrest : LookedUp _ (cfg.lookupLayers lookupId searchRange true segments stop
          ((st.pinBlocks [(location, cfg.splitLayers key)]).extendPins lookupId location
            (cfg.splitLayers key))).2 _ := ih ((hpresent.pinBlocks _).extendPins hlayers)
      refine ⟨hextended.trans hrest.same, hrest.present, ?_⟩
      rw [← stopsUnpinned_congr hextended, ← hrest.surplus_iff]
      refine forall_congr' fun location' => forall_congr' fun key' => ?_
      rw [hextended.keepsPins]
      refine imp_congr_right fun hkeeps => ?_
      rw [surplus_extendPins, surplus_pinBlocks hkeeps, Int.add_sub_cancel]

theorem lookedUp_chunks (hpresent : st.RecordedPresent) :
    LookedUp st (lookupChunks lookupId searchRange true segments st).2
      (st.blockMapping (segments.map fun segment => segment.2.2) searchRange = [] ∨
        st.Unrecorded lookupId) := by
  have hsame := sameEntries_pinBlocks st
    (st.blockMapping (segments.map fun segment => segment.2.2) searchRange)
  by_cases hempty : st.blockMapping (segments.map fun segment => segment.2.2) searchRange = []
  · have hresult : (lookupChunks lookupId searchRange true segments st).2 = st := by
      simp [lookupChunks, batchedContains, pinBlocks, hempty]
    rw [hresult]
    exact ⟨⟨rfl, rfl⟩, hpresent, ⟨fun _ => .inl hempty, fun _ _ _ _ => rfl⟩⟩
  · have hresult : (lookupChunks lookupId searchRange true segments st).2 =
        (st.pinBlocks (st.blockMapping (segments.map fun segment => segment.2.2)
          searchRange)).assignPins lookupId
            ⟨st.blockMapping (segments.map fun segment => segment.2.2) searchRange,
              st.blockMapping_nodup _ searchRange⟩ := by
      simp [lookupChunks, batchedContains, hempty]
    rw [hresult]
    refine ⟨hsame.trans ⟨rfl, rfl⟩, hpresent.assignPins _, ?_⟩
    rw [or_iff_right hempty]
    refine forall_congr' fun location => forall_congr' fun key =>
      imp_congr_right fun hkeeps => ?_
    rw [surplus_assignPins, surplus_pinBlocks hkeeps, lookupPins_pinBlocks]
    omega

end LookupConfig

namespace PinState

variable {st : PinState K} {location : String} {keys : List K}

theorem unpin_eq {key : K} (hkeeps : st.keepsPins location = true)
    (hpresent : st.present location key = true) (hpos : 1 ≤ st.pinCount location key) :
    st.unpin location key =
      { st with
        pinCount := fun l k =>
          if l = location ∧ k = key then st.pinCount l k - 1 else st.pinCount l k } := by
  rw [unpin]
  cases hmode : st.table.storageBackends.get? location with
  | none => simp [keepsPins, hmode] at hkeeps
  | some mode =>
    simp only [hpresent, if_true]
    congr 1
    funext l k
    split_ifs with heq
    · obtain ⟨rfl, rfl⟩ := heq
      cases mode with
      | ignored => simp [keepsPins, hmode] at hkeeps
      | clamped => exact Int.max_eq_left (by omega)
      | unclamped => rfl
    · rfl

theorem batchedUnpin_eq (hkeeps : st.keepsPins location = true)
    (hpresent : ∀ key ∈ keys, st.present location key = true)
    (hcount : ∀ key, (keys.count key : ℤ) ≤ st.pinCount location key) :
    st.batchedUnpin location keys =
      { st with
        pinCount := fun l k =>
          if l = location then st.pinCount l k - keys.count k else st.pinCount l k } := by
  rw [batchedUnpin]
  induction keys generalizing st with
  | nil => simp
  | cons key keys ih =>
    have hhead := hcount key
    rw [count_cons_self] at hhead
    rw [foldl_cons, unpin_eq hkeeps (hpresent key mem_cons_self) (by omega), ih]
    · congr 1
      funext l k
      by_cases hl : l = location
      · subst hl
        rw [count_cons]
        by_cases hk : k = key
        · subst hk
          simp
          omega
        · have hne : ¬ key = k := fun h => hk h.symm
          simp [hk, hne]
      · simp [hl]
    · exact (keepsPins_congr rfl).trans hkeeps
    · exact fun k hk => hpresent k (mem_cons_of_mem _ hk)
    · intro k
      have hk := hcount k
      rw [count_cons] at hk
      by_cases heq : k = key
      · subst heq
        simp at hk ⊢
        omega
      · have hne : ¬ key = k := fun h => heq h.symm
        simpa [heq, hne] using hk

end PinState

end LMCache
