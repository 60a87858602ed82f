import LMCache.CacheEngine.PinRuns

namespace LMCache

variable {K : Type} [DecidableEq K]

namespace PinState

variable {st st' : PinState K} {lookupId location : String} {key : K}
  {blockMapping : List (String × List K)}

structure Unpinning (st st' : PinState K) (location : String) : Prop where
  same : SameEntries st st'
  lookupPins : st'.lookupPins = st.lookupPins
  frame : ∀ location', location' ≠ location → st'.pinCount location' = st.pinCount location'

theorem unpinning_unpin (st : PinState K) (location : String) (key : K) :
    Unpinning st (st.unpin location key) location := by
  rw [unpin]
  cases st.table.storageBackends.get? location with
  | none => exact ⟨⟨rfl, rfl⟩, rfl, fun _ _ => rfl⟩
  | some mode =>
    dsimp only
    split_ifs
    · refine ⟨⟨rfl, rfl⟩, rfl, fun location' hne => funext fun k => ?_⟩
      exact if_neg fun h => hne h.1
    · exact ⟨⟨rfl, rfl⟩, rfl, fun _ _ => rfl⟩

theorem unpinning_batchedUnpin (st : PinState K) (location : String) (keys : List K) :
    Unpinning st (st.batchedUnpin location keys) location := by
  rw [batchedUnpin]
  induction keys generalizing st with
  | nil => exact ⟨⟨rfl, rfl⟩, rfl, fun _ _ => rfl⟩
  | cons key keys ih =>
    have hhead := unpinning_unpin st location key
    have hrest := ih (st.unpin location key)
    exact ⟨hhead.same.trans hrest.same, hrest.lookupPins.trans hhead.lookupPins,
      fun location' hne => (hrest.frame location' hne).trans (hhead.frame location' hne)⟩

structure Covered (st : PinState K) (blockMapping : List (String × List K)) : Prop where
  counts : ∀ location key, st.keepsPins location = true →
    (blocksCount blockMapping location key : ℤ) ≤ st.pinCount location key
  present : ∀ block ∈ blockMapping, st.keepsPins block.1 = true →
    ∀ key ∈ block.2, st.present block.1 key = true

structure GivenBack (st st' : PinState K) (blockMapping : List (String × List K)) : Prop where
  same : SameEntries st st'
  lookupPins : st'.lookupPins = st.lookupPins
  pinCount : ∀ location key, st.keepsPins location = true →
    st'.pinCount location key = st.pinCount location key - blocksCount blockMapping location key

theorem givenBack_batchedUnpin {keys : List K} (h : st.Covered ((location, keys) :: blockMapping)) :
    GivenBack st (st.batchedUnpin location keys) [(location, keys)] := by
  have hunpin := unpinning_batchedUnpin st location keys
  refine ⟨hunpin.same, hunpin.lookupPins, fun location' key hkeeps => ?_⟩
  have hnil : blocksCount ([] : List (String × List K)) location' key = 0 := rfl
  rw [blocksCount_cons, hnil, Nat.add_zero]
  dsimp only
  split_ifs with heq
  · subst heq
    have hcount : ∀ key, (keys.count key : ℤ) ≤ st.pinCount location key := fun key => by
      have hle := h.counts location key hkeeps
      rw [blocksCount_cons] at hle
      dsimp only at hle
      rw [if_pos rfl] at hle
      omega
    rw [batchedUnpin_eq hkeeps (h.present _ List.mem_cons_self hkeeps) hcount]
    exact if_pos rfl
  · rw [hunpin.frame location' fun h => heq h.symm]
    exact (Int.sub_zero _).symm

theorem Covered.tail {keys : List K} (h : st.Covered ((location, keys) :: blockMapping)) :
    (st.batchedUnpin location keys).Covered blockMapping := by
  have hback := givenBack_batchedUnpin h
  constructor
  · intro location' key hkeeps
    rw [hback.same.keepsPins] at hkeeps
    have hle := h.counts location' key hkeeps
    have hnil : blocksCount ([] : List (String × List K)) location' key = 0 := rfl
    rw [hback.pinCount location' key hkeeps]
    rw [blocksCount_cons] at hle ⊢
    rw [hnil]
    omega
  · intro block hblock hkeeps key hkey
    rw [hback.same.keepsPins] at hkeeps
    rw [hback.same.present]
    exact h.present block (List.mem_cons_of_mem _ hblock) hkeeps key hkey

theorem givenBack_blocks (h : st.Covered blockMapping) :
    GivenBack st (blockMapping.foldl (fun st p => st.batchedUnpin p.1 p.2) st) blockMapping := by
  induction blockMapping generalizing st with
  | nil => exact ⟨⟨rfl, rfl⟩, rfl, fun _ _ _ => (Int.sub_zero _).symm⟩
  | cons block blockMapping ih =>
    obtain ⟨location, keys⟩ := block
    have hhead := givenBack_batchedUnpin h
    have hrest := ih h.tail
    refine ⟨hhead.same.trans hrest.same, hrest.lookupPins.trans hhead.lookupPins,
      fun location' key hkeeps => ?_⟩
    rw [List.foldl_cons, hrest.pinCount location' key ((hhead.same.keepsPins _).trans hkeeps),
      hhead.pinCount location' key hkeeps, blocksCount_cons, blocksCount_cons (location, keys)]
    have hnil : blocksCount ([] : List (String × List K)) location' key = 0 := rfl
    rw [hnil]
    omega

structure PinsKept (st : PinState K) : Prop where
  recorded : st.PinsRecorded
  present : st.RecordedPresent

theorem PinsKept.covered (h : st.PinsKept) {pins : Dict String (List K)}
    (hget : st.lookupPins.get? lookupId = some pins) : st.Covered pins.items := by
  have hunder : ∀ location key, blocksCount pins.items location key ≤
      LMCache.recorded st.lookupPins location key := by
    intro location key
    have herase := recorded_erase st.lookupPins lookupId location key
    rw [recordedUnder, hget] at herase
    have hcounted : counted pins location key = blocksCount pins.items location key :=
      counted_eq_blocksCount pins.nodup
    change counted pins location key + _ = _ at herase
    omega
  constructor
  · intro location key hkeeps
    rw [h.recorded location key hkeeps]
    exact Int.ofNat_le.mpr (hunder location key)
  · intro block hblock hkeeps key hkey
    refine h.present block.1 key hkeeps (Nat.lt_of_lt_of_le ?_ (hunder block.1 key))
    rw [blocksCount, List.sum_pos_iff_exists_pos_nat]
    refine ⟨_, List.mem_map_of_mem hblock, ?_⟩
    rw [if_pos rfl]
    exact List.count_pos_iff.mpr hkey

theorem PinsKept.lookupUnpin (h : st.PinsKept) (lookupId : String) :
    (st.lookupUnpin lookupId).PinsKept := by
  rw [PinState.lookupUnpin]
  cases hget : st.lookupPins.get? lookupId with
  | none => exact h
  | some pins =>
    have hcovered := h.covered hget
    have hback : GivenBack { st with lookupPins := st.lookupPins.erase lookupId } _ pins.items :=
      givenBack_blocks ⟨hcovered.1, hcovered.2⟩
    have herase : ∀ location key, blocksCount pins.items location key +
        LMCache.recorded (st.lookupPins.erase lookupId) location key =
          LMCache.recorded st.lookupPins location key := by
      intro location key
      rw [← recorded_erase st.lookupPins lookupId, recordedUnder, hget]
      exact congrArg (· + _) (counted_eq_blocksCount pins.nodup).symm
    constructor
    · intro location key hkeeps
      rw [hback.same.keepsPins] at hkeeps
      rw [hback.pinCount location key hkeeps, hback.lookupPins]
      have hpins := h.recorded location key hkeeps
      have hleft := herase location key
      dsimp only
      omega
    · intro location key hkeeps hpos
      rw [hback.same.keepsPins] at hkeeps
      rw [hback.lookupPins] at hpos
      rw [hback.same.present]
      refine h.present location key hkeeps ?_
      have hleft := herase location key
      dsimp only at hpos
      omega

end PinState

namespace PinEvent

def KeepsPinned (st : PinState K) : PinEvent K → Prop
  | .remove location key => st.keepsPins location = true → st.pinCount location key ≤ 0
  | _ => True

def Clean (cfg : LookupConfig K) (st : PinState K) : PinEvent K → Prop
  | .lookup lookupId segments searchRange true =>
      if cfg.useLayerwise then cfg.StopsUnpinned st searchRange segments
      else st.blockMapping (segments.map fun segment => segment.2.2) searchRange = [] ∨
        st.Unrecorded lookupId
  | _ => True

end PinEvent

namespace LookupConfig

open PinState

variable {cfg : LookupConfig K} {st : PinState K} {lookupId : String}
  {searchRange : Option (List String)} {segments : List (ℕ × ℕ × K)} {res : ℕ}

theorem lookedUp (hpresent : st.RecordedPresent) :
    LookedUp st (cfg.lookup lookupId segments searchRange true st).2
      (PinEvent.Clean cfg st (.lookup lookupId segments searchRange true)) := by
  rw [lookup, PinEvent.Clean]
  split_ifs
  · exact lookedUp_layers hpresent
  · exact lookedUp_chunks hpresent

theorem lookupLayers_unpinned (cfg : LookupConfig K) (lookupId : String)
    (searchRange : Option (List String)) (segments : List (ℕ × ℕ × K)) (res : ℕ)
    (st : PinState K) :
    (cfg.lookupLayers lookupId searchRange false segments res st).2 = st := by
  induction segments generalizing res with
  | nil => rfl
  | cons segment segments ih =>
    obtain ⟨start, stop, key⟩ := segment
    rw [lookupLayers]
    cases cfg.completeAt (st.blockMapping (cfg.splitLayers key) searchRange) with
    | none => rfl
    | some location => exact ih stop

theorem lookup_unpinned (cfg : LookupConfig K) (lookupId : String)
    (segments : List (ℕ × ℕ × K)) (searchRange : Option (List String)) (st : PinState K) :
    (cfg.lookup lookupId segments searchRange false st).2 = st := by
  rw [lookup]
  split_ifs
  · exact lookupLayers_unpinned cfg lookupId searchRange segments 0 st
  · rfl

theorem pinsKept_put (h : st.PinsKept) (location : String) (key : K) :
    (cfg.exec st (.put location key)).PinsKept := by
  rw [exec]
  split_ifs with hpresent
  · exact h
  · have hzero : st.keepsPins location = true → recorded st.lookupPins location key = 0 :=
      fun hkeeps => Nat.eq_zero_of_not_pos fun hpos =>
        hpresent (h.present location key hkeeps hpos)
    constructor
    · intro location' key' hkeeps
      change (if location' = location ∧ key' = key then 0 else st.pinCount location' key') = _
      split_ifs with heq
      · obtain ⟨rfl, rfl⟩ := heq
        exact (congrArg Int.ofNat (hzero hkeeps)).symm
      · exact h.recorded location' key' hkeeps
    · intro location' key' hkeeps hpos
      change (if location' = location ∧ key' = key then true else st.present location' key') = true
      split_ifs
      · rfl
      · exact h.present location' key' hkeeps hpos

theorem pinsKept_remove (h : st.PinsKept) (location : String) (key : K)
    (hkept : PinEvent.KeepsPinned st (.remove location key)) :
    (cfg.exec st (.remove location key)).PinsKept := by
  refine ⟨h.recorded, fun location' key' hkeeps hpos => ?_⟩
  change (if location' = location ∧ key' = key then false else st.present location' key') = true
  split_ifs with heq
  · obtain ⟨rfl, rfl⟩ := heq
    have hcount := h.recorded location' key' hkeeps
    have hle := hkept hkeeps
    change 0 < recorded st.lookupPins location' key' at hpos
    omega
  · exact h.present location' key' hkeeps hpos

theorem pinsKept_step (event : PinEvent K) (h : st.PinsKept)
    (hkept : PinEvent.KeepsPinned st event) (hclean : PinEvent.Clean cfg st event) :
    (cfg.exec st event).PinsKept := by
  cases event with
  | lookup lookupId segments searchRange pin =>
    rw [exec]
    cases pin with
    | false => rwa [lookup_unpinned]
    | true =>
      have hlooked : LookedUp st (cfg.lookup lookupId segments searchRange true st).2
        (PinEvent.Clean cfg st (.lookup lookupId segments searchRange true)) := lookedUp h.present
      refine ⟨pinsRecorded_iff.mpr fun location key hkeeps => ?_, hlooked.present⟩
      rw [hlooked.same.keepsPins] at hkeeps
      rw [hlooked.surplus_iff.mpr hclean location key hkeeps]
      exact pinsRecorded_iff.mp h.recorded location key hkeeps
  | lookupUnpin lookupId => exact h.lookupUnpin lookupId
  | put location key => exact pinsKept_put h location key
  | remove location key => exact pinsKept_remove h location key hkept
  | setFreeze freeze => exact ⟨h.recorded, h.present⟩
  | setBypass bypassedBackends => exact ⟨h.recorded, h.present⟩

theorem clean_of_pinsRecorded (event : PinEvent K) (h : st.PinsKept)
    (hrecorded : (cfg.exec st event).PinsRecorded) : PinEvent.Clean cfg st event := by
  cases event with
  | lookup lookupId segments searchRange pin =>
    cases pin with
    | false => trivial
    | true =>
      have hlooked : LookedUp st (cfg.lookup lookupId segments searchRange true st).2
        (PinEvent.Clean cfg st (.lookup lookupId segments searchRange true)) := lookedUp h.present
      refine hlooked.surplus_iff.mp fun location key hkeeps => ?_
      rw [pinsRecorded_iff.mp h.recorded location key hkeeps]
      exact pinsRecorded_iff.mp hrecorded location key ((hlooked.same.keepsPins _).trans hkeeps)
  | lookupUnpin lookupId => trivial
  | put location key => trivial
  | remove location key => trivial
  | setFreeze freeze => trivial
  | setBypass bypassedBackends => trivial

end LookupConfig

namespace PinState

variable {st : PinState K}

def start (table : BackendTable PinMode) (present : String → K → Bool) : PinState K :=
  ⟨table, present, fun _ _ => 0, Dict.empty⟩

theorem pinsKept_start (table : BackendTable PinMode) (present : String → K → Bool) :
    (start table present).PinsKept :=
  ⟨fun _ _ _ => rfl, fun _ _ _ hpos => absurd hpos (Nat.lt_irrefl 0)⟩

structure PinsUndone (st : PinState K) : Prop where
  recorded : st.PinsRecorded
  undone : st.lookupPins.keys = [] →
    ∀ location key, st.keepsPins location = true → st.pinCount location key = 0

theorem pinsUndone_of_recorded (h : st.PinsRecorded) : st.PinsUndone := by
  refine ⟨h, fun hkeys location key hkeeps => ?_⟩
  have hitems : st.lookupPins.values = [] := by
    rw [Dict.values, List.map_eq_nil_iff.mp hkeys, List.map_nil]
  rw [h location key hkeeps, LMCache.recorded, hitems]
  rfl

end PinState

namespace LookupConfig

open PinState Execution

theorem pinsUndone_iff (cfg : LookupConfig K) (table : BackendTable PinMode)
    (present : String → K → Bool) (events : List (PinEvent K))
    (hkept : Along cfg.exec PinEvent.KeepsPinned (start table present) events) :
    (∀ pre rest, events = pre ++ rest → (final cfg.exec (start table present) pre).PinsUndone) ↔
      Along cfg.exec (PinEvent.Clean cfg) (start table present) events := by
  have hstart := pinsKept_start table present
  rw [forall_prefix_iff, and_iff_right (pinsUndone_of_recorded hstart.recorded)]
  refine along_iff_along (fun st event h hkept hclean => pinsKept_step event h hkept hclean)
    (fun st event h hkept => ?_) hstart hkept
  constructor
  · exact fun hundone => clean_of_pinsRecorded event h hundone.recorded
  · exact fun hclean => pinsUndone_of_recorded (pinsKept_step event h hkept hclean).recorded

def twoLayers (useLayerwise : Bool) : LookupConfig ℕ := ⟨useLayerwise, 2, fun key i => 2 * key + i⟩

def hotCacheOnly : BackendTable PinMode :=
  ⟨Dict.empty.set "LocalCPUBackend" .clamped, false, []⟩

theorem pinsUndone_iff_bothLayers :
    Along (twoLayers true).exec PinEvent.KeepsPinned (start hotCacheOnly fun _ key => key < 2)
        [.lookup "a" [(0, 16, 0)] none true, .lookupUnpin "a"] ∧
      ∀ pre rest, [.lookup "a" [(0, 16, 0)] none true, .lookupUnpin "a"] = pre ++ rest →
        (final (twoLayers true).exec (start hotCacheOnly fun _ key => key < 2) pre).PinsUndone := by
  have hkept : Along (twoLayers true).exec PinEvent.KeepsPinned
      (start hotCacheOnly fun _ key => key < 2)
      [.lookup "a" [(0, 16, 0)] none true, .lookupUnpin "a"] := ⟨trivial, trivial, trivial⟩
  exact ⟨hkept, (pinsUndone_iff _ _ _ _ hkept).mpr ⟨trivial, trivial, trivial⟩⟩

theorem not_pinsUndone_firstLayer :
    Along (twoLayers true).exec PinEvent.KeepsPinned (start hotCacheOnly fun _ key => key == 0)
        [.lookup "a" [(0, 16, 0)] none true, .lookupUnpin "a"] ∧
      (final (twoLayers true).exec (start hotCacheOnly fun _ key => key == 0)
        [.lookup "a" [(0, 16, 0)] none true, .lookupUnpin "a"]).lookupPins.keys = [] ∧
      ¬ (final (twoLayers true).exec (start hotCacheOnly fun _ key => key == 0)
        [.lookup "a" [(0, 16, 0)] none true, .lookupUnpin "a"]).PinsUndone := by
  refine ⟨⟨trivial, trivial, trivial⟩, rfl, fun h => ?_⟩
  exact absurd (h.recorded "LocalCPUBackend" 0 rfl) (by decide)

end LookupConfig

end LMCache
