import LMCache.CacheEngine.LookupPins
import LMCache.Foundations.Execution
import Mathlib.Data.List.TakeWhile

namespace LMCache

open List

variable {K : Type} [DecidableEq K]

def counted (pins : Dict String (List K)) (location : String) (key : K) : ℕ :=
  ((pins.get? location).getD []).count key

def recorded (lookupPins : Dict String (Dict String (List K))) (location : String) (key : K) : ℕ :=
  (lookupPins.values.map fun pins => counted pins location key).sum

def recordedUnder (lookupPins : Dict String (Dict String (List K))) (lookupId location : String)
    (key : K) : ℕ :=
  ((lookupPins.get? lookupId).map fun pins => counted pins location key).getD 0

def blocksCount (blockMapping : List (String × List K)) (location : String) (key : K) : ℕ :=
  (blockMapping.map fun block => if block.1 = location then block.2.count key else 0).sum

variable {lookupPins : Dict String (Dict String (List K))} {lookupId location : String} {key : K}

theorem sum_toList (lookupPins : Dict String (Dict String (List K))) (lookupId location : String)
    (key : K) : ((lookupPins.get? lookupId).toList.map fun pins => counted pins location key).sum =
      recordedUnder lookupPins lookupId location key := by
  rw [recordedUnder]
  cases lookupPins.get? lookupId with
  | none => rfl
  | some pins => simp

theorem recorded_set (lookupPins : Dict String (Dict String (List K)))
    (lookupId location : String) (key : K) (pins : Dict String (List K)) :
    recordedUnder lookupPins lookupId location key +
        recorded (lookupPins.set lookupId pins) location key =
      counted pins location key + recorded lookupPins location key := by
  have hperm := ((lookupPins.values_set_perm lookupId pins).map
    fun pins => counted pins location key).sum_eq
  rw [map_append, sum_append, map_cons, sum_cons, sum_toList] at hperm
  exact hperm

theorem recorded_erase (lookupPins : Dict String (Dict String (List K)))
    (lookupId location : String) (key : K) :
    recordedUnder lookupPins lookupId location key +
      recorded (lookupPins.erase lookupId) location key = recorded lookupPins location key := by
  have hperm := ((lookupPins.values_erase_perm lookupId).map
    fun pins => counted pins location key).sum_eq
  rw [map_append, sum_append, sum_toList] at hperm
  exact hperm

theorem blocksCount_cons (block : String × List K) (blockMapping : List (String × List K)) :
    blocksCount (block :: blockMapping) location key =
      (if block.1 = location then block.2.count key else 0) +
        blocksCount blockMapping location key := by
  rw [blocksCount, map_cons, sum_cons]
  rfl

theorem blocksCount_eq_zero {blockMapping : List (String × List K)}
    (h : location ∉ blockMapping.map Prod.fst) : blocksCount blockMapping location key = 0 := by
  induction blockMapping with
  | nil => rfl
  | cons block blockMapping ih =>
    rw [map_cons, mem_cons, not_or] at h
    rw [blocksCount_cons, if_neg (fun heq => h.1 heq.symm), ih h.2]

theorem counted_eq_blocksCount {blockMapping : List (String × List K)}
    (hnodup : (blockMapping.map Prod.fst).Nodup) :
    counted ⟨blockMapping, hnodup⟩ location key = blocksCount blockMapping location key := by
  rw [counted, Dict.get?]
  induction blockMapping with
  | nil => rfl
  | cons block blockMapping ih =>
    obtain ⟨hnot, hrest⟩ := nodup_cons.mp hnodup
    rw [Dict.lookup_cons_eq, blocksCount_cons]
    split_ifs with heq
    · rw [blocksCount_eq_zero (heq ▸ hnot)]
      rfl
    · rw [Nat.zero_add]
      exact ih hrest

theorem counted_set_append (pins : Dict String (List K)) (location' : String) (keys : List K) :
    counted (pins.set location' ((pins.get? location').getD [] ++ keys)) location key =
      counted pins location key + (if location' = location then keys.count key else 0) := by
  rw [counted, counted, Dict.get?_set]
  split_ifs with heq
  · subst heq
    rw [Option.getD_some, count_append]
  · rfl

namespace PinState

variable {st st' : PinState K}

omit [DecidableEq K] in
theorem keepsPins_congr (h : st.table.storageBackends = st'.table.storageBackends) :
    st.keepsPins location = st'.keepsPins location := by
  rw [keepsPins, keepsPins, h]

theorem pinAll_eq (st : PinState K) (location' : String) (keys : List K) :
    st.pinAll location' keys =
      { st with
        pinCount := fun l k =>
          if st.keepsPins l then st.pinCount l k + blocksCount [(location', keys)] l k
          else st.pinCount l k } := by
  rw [pinAll]
  split_ifs with hkeeps
  · congr 1
    funext l k
    rw [blocksCount_cons]
    by_cases heq : l = location'
    · subst heq
      simp [hkeeps, blocksCount]
    · have hne : ¬ location' = l := fun h => heq h.symm
      simp [heq, hne, blocksCount]
  · have hsame : st.pinCount = fun l k =>
        if st.keepsPins l then st.pinCount l k + blocksCount [(location', keys)] l k
        else st.pinCount l k := by
      funext l k
      split_ifs with hl
      · have hne : ¬ location' = l := fun h => hkeeps (h ▸ hl)
        simp [blocksCount, hne]
      · rfl
    rw [← hsame]

theorem pinBlocks_eq (st : PinState K) (blockMapping : List (String × List K)) :
    st.pinBlocks blockMapping =
      { st with
        pinCount := fun l k =>
          if st.keepsPins l then st.pinCount l k + blocksCount blockMapping l k
          else st.pinCount l k } := by
  rw [pinBlocks]
  induction blockMapping generalizing st with
  | nil => simp [blocksCount]
  | cons block blockMapping ih =>
    rw [foldl_cons, ih, pinAll_eq]
    congr 1
    funext l k
    have hkeeps : ∀ pinCount, ({ st with pinCount := pinCount } : PinState K).keepsPins l =
        st.keepsPins l := fun _ => keepsPins_congr rfl
    rw [hkeeps]
    split_ifs with hl
    · have hnil : blocksCount ([] : List (String × List K)) l k = 0 := rfl
      simp only [hl, if_true, blocksCount_cons, hnil, Nat.add_zero, Int.natCast_add, Int.add_assoc]
    · exact if_neg hl

omit [DecidableEq K] in
theorem blockMapping_congr (htable : st.table = st'.table) (hpresent : st.present = st'.present)
    (keys : List K) (searchRange : Option (List String)) :
    st.blockMapping keys searchRange = st'.blockMapping keys searchRange := by
  have hmap : ∀ totalKeys backends keys hits,
      st.mapKeys totalKeys backends keys hits = st'.mapKeys totalKeys backends keys hits := by
    intro totalKeys backends
    induction backends with
    | nil => exact fun _ _ => rfl
    | cons p backends ih =>
      intro keys hits
      simp only [mapKeys, hpresent, ih]
  rw [blockMapping, blockMapping, hmap, htable]

omit [DecidableEq K] in
theorem mapKeys_spec (st : PinState K) (totalKeys : ℕ) (backends : List (String × PinMode))
    (keys : List K) (hits : ℕ) :
    (st.mapKeys totalKeys backends keys hits).flatMap Prod.snd <+: keys ∧
      ∀ block ∈ st.mapKeys totalKeys backends keys hits,
        block.2 ≠ [] ∧ ∀ key ∈ block.2, st.present block.1 key = true := by
  induction backends generalizing keys hits with
  | nil => exact ⟨List.nil_prefix, fun _ h => absurd h not_mem_nil⟩
  | cons p backends ih =>
    obtain ⟨backendName, mode⟩ := p
    have htake : keys.take (keys.takeWhile (st.present backendName)).length =
        keys.takeWhile (st.present backendName) :=
      (prefix_iff_eq_take.mp (List.takeWhile_prefix _)).symm
    have hhead : (keys.takeWhile (st.present backendName)).length ≠ 0 →
        keys.takeWhile (st.present backendName) ≠ [] ∧
          ∀ key ∈ keys.takeWhile (st.present backendName), st.present backendName key = true :=
      fun hne => ⟨fun hnil => hne (congrArg length hnil), fun key hkey => mem_takeWhile_imp hkey⟩
    simp only [mapKeys, htake]
    split_ifs with hzero hall
    · exact ih keys hits
    · refine ⟨by simpa using takeWhile_prefix _, fun block hblock => ?_⟩
      obtain rfl := mem_singleton.mp hblock
      exact hhead hzero
    · obtain ⟨⟨rest, hrest⟩, hblocks⟩ :=
        ih (keys.drop (keys.takeWhile (st.present backendName)).length)
          (hits + (keys.takeWhile (st.present backendName)).length)
      refine ⟨⟨rest, ?_⟩, fun block hblock => ?_⟩
      · rw [flatMap_cons, append_assoc, hrest]
        nth_rewrite 1 [← htake]
        exact take_append_drop _ _
      · rcases mem_cons.mp hblock with rfl | hblock
        · exact hhead hzero
        · exact hblocks block hblock

end PinState

end LMCache

namespace LMCache

variable {K : Type} [DecidableEq K]

namespace PinState

variable {st : PinState K} {lookupId location : String} {key : K} {keys : List K}
  {searchRange : Option (List String)} {blockMapping : List (String × List K)}

def PinsRecorded (st : PinState K) : Prop :=
  ∀ location key, st.keepsPins location = true →
    st.pinCount location key = recorded st.lookupPins location key

def RecordedPresent (st : PinState K) : Prop :=
  ∀ location key, st.keepsPins location = true → 0 < recorded st.lookupPins location key →
    st.present location key = true

def surplus (st : PinState K) (location : String) (key : K) : ℤ :=
  st.pinCount location key - recorded st.lookupPins location key

theorem pinsRecorded_iff : st.PinsRecorded ↔
    ∀ location key, st.keepsPins location = true → st.surplus location key = 0 := by
  simp only [PinsRecorded, surplus, Int.sub_eq_zero]

def Unpinned (st : PinState K) (blockMapping : List (String × List K)) : Prop :=
  ∀ block ∈ blockMapping, st.keepsPins block.1 = false

def Unrecorded (st : PinState K) (lookupId : String) : Prop :=
  ∀ location key, st.keepsPins location = true →
    recordedUnder st.lookupPins lookupId location key = 0

theorem unpinned_iff (h : ∀ block ∈ blockMapping, block.2 ≠ []) : st.Unpinned blockMapping ↔
    ∀ location key, st.keepsPins location = true → blocksCount blockMapping location key = 0 := by
  constructor
  · intro hunpinned location key hkeeps
    apply blocksCount_eq_zero
    rintro hmem
    obtain ⟨block, hblock, rfl⟩ := List.mem_map.mp hmem
    exact absurd hkeeps (by simp [hunpinned block hblock])
  · intro hzero block hblock
    rw [← Bool.not_eq_true]
    intro hkeeps
    obtain ⟨key, rest, hcons⟩ := List.exists_cons_of_ne_nil (h block hblock)
    have hterm := List.sum_eq_zero_iff_forall_eq_nat.mp (hzero block.1 key hkeeps)
      _ (List.mem_map_of_mem hblock)
    rw [if_pos rfl, hcons] at hterm
    exact absurd hterm (by simp)

theorem present_of_blocksCount (hpos : 0 < blocksCount (st.blockMapping keys searchRange) location key) :
    st.present location key = true := by
  rw [blocksCount, List.sum_pos_iff_exists_pos_nat] at hpos
  obtain ⟨n, hn, hpos⟩ := hpos
  obtain ⟨block, hblock, rfl⟩ := List.mem_map.mp hn
  split_ifs at hpos with heq
  · subst heq
    exact ((st.mapKeys_spec _ _ _ _).2 block hblock).2 key (List.count_pos_iff.mp hpos)
  · exact absurd hpos (Nat.lt_irrefl 0)

omit [DecidableEq K] in
theorem blocks_nonempty (st : PinState K) (keys : List K) (searchRange : Option (List String)) :
    ∀ block ∈ st.blockMapping keys searchRange, block.2 ≠ [] :=
  fun block hblock => ((st.mapKeys_spec _ _ _ _).2 block hblock).1

theorem surplus_pinBlocks (hkeeps : st.keepsPins location = true) :
    (st.pinBlocks blockMapping).surplus location key =
      st.surplus location key + blocksCount blockMapping location key := by
  rw [pinBlocks_eq, surplus, surplus]
  simp only [hkeeps, if_true]
  omega

theorem recorded_extendPins (st : PinState K) (lookupId location' : String) (keys : List K) :
    recorded (st.extendPins lookupId location' keys).lookupPins location key =
      recorded st.lookupPins location key + blocksCount [(location', keys)] location key := by
  have hset := recorded_set st.lookupPins lookupId location key
    (((st.lookupPins.get? lookupId).getD Dict.empty).set location'
      ((((st.lookupPins.get? lookupId).getD Dict.empty).get? location').getD [] ++ keys))
  have hunder : recordedUnder st.lookupPins lookupId location key =
      counted ((st.lookupPins.get? lookupId).getD Dict.empty) location key := by
    rw [recordedUnder]
    cases st.lookupPins.get? lookupId with
    | none => rfl
    | some pins => rfl
  have hnil : blocksCount ([] : List (String × List K)) location key = 0 := rfl
  rw [counted_set_append, hunder] at hset
  rw [blocksCount_cons, hnil, Nat.add_zero]
  change recorded (st.lookupPins.set lookupId _) location key = _
  dsimp only
  omega

theorem surplus_extendPins (st : PinState K) (lookupId location' : String) (keys : List K) :
    (st.extendPins lookupId location' keys).surplus location key =
      st.surplus location key - blocksCount [(location', keys)] location key := by
  rw [surplus, surplus, recorded_extendPins]
  change st.pinCount location key - _ = _
  omega

theorem recorded_assignPins (st : PinState K) (lookupId location : String) (key : K)
    (hnodup : (blockMapping.map Prod.fst).Nodup) :
    recordedUnder st.lookupPins lookupId location key +
        recorded (st.assignPins lookupId ⟨blockMapping, hnodup⟩).lookupPins location key =
      blocksCount blockMapping location key + recorded st.lookupPins location key := by
  rw [← counted_eq_blocksCount hnodup]
  exact recorded_set st.lookupPins lookupId location key _

theorem surplus_assignPins (hnodup : (blockMapping.map Prod.fst).Nodup) :
    (st.assignPins lookupId ⟨blockMapping, hnodup⟩).surplus location key =
      st.surplus location key + recordedUnder st.lookupPins lookupId location key -
        blocksCount blockMapping location key := by
  have hrecorded := recorded_assignPins st lookupId location key hnodup
  rw [surplus, surplus]
  change st.pinCount location key - _ = _
  omega

end PinState

end LMCache
