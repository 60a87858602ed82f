import LMCache.StorageBackend.P2PBackend
import LMCache.StorageBackend.TouchCache

namespace LMCache

open List CPUState Option Nat

inductive EntryRemoval where
  | remove (key : HotKey)
  | evictOne

def EntryRemoval.events : EntryRemoval → List CPUEvent
  | .remove key => [.remove key, .queueEvict key]
  | .evictOne => [.evictOne]

structure LookupAndGetCall where
  xferHandlerExists : Bool
  keys : Option (List HotKey)
  beforeGet : List EntryRemoval
  beforeFinally : List EntryRemoval
  beforeRelease : ℕ → List EntryRemoval
  writeRaises : Bool

-- allocates says of a key that its shape is found and the allocation does not raise, finalizes says of a
-- new object that its __del__ has not run yet: a page that __del__ has given back once is not finalized again
structure LookupAndPutCall where
  keys : Option (List HotKey)
  memIndexes : ℕ
  beforeContains : ℕ → List EntryRemoval
  beforeAllocate : ℕ → List EntryRemoval
  allocates : ℕ → Bool
  finalizes : ℕ → Bool
  readRaises : Bool
  useHot : Bool
  beforePut : ℕ → List EntryRemoval

inductive PeerMsg where
  | lookupAndGet (call : LookupAndGetCall)
  | lookupAndPut (call : LookupAndPutCall)

inductive PeerReply where
  | getRet (ret : P2PRetMsg)
  | putRet (numReadChunks : ℕ)

namespace CPUState

open Execution MemObj

def others (st : CPUState) (removals : List EntryRemoval) : CPUState :=
  final exec st (removals.flatMap EntryRemoval.events)

def batchedGetNonBlocking : List HotKey → CPUState → Option (List ℕ) × CPUState
  | [], st => (some [], st)
  | key :: keys, st =>
      match st.hotCache.get? key with
      | none => (none, st)
      | some obj =>
          let (memObjs, st) := batchedGetNonBlocking keys (st.getBlocking key)
          (memObjs.map (obj :: ·), st)

def unpinObj (st : CPUState) (obj : ℕ) : CPUState := st.modify obj MemObj.unpin

def releaseAll (beforeRelease : ℕ → List EntryRemoval) : List ℕ → ℕ → CPUState → CPUState
  | [], _, st => st
  | obj :: memObjs, i, st =>
      releaseAll beforeRelease memObjs (i + 1)
        (((st.others (beforeRelease i)).refCountDown obj).unpinObj obj)

def handleBatchedLookupAndGet (st : CPUState) (call : LookupAndGetCall) : P2PRetMsg × CPUState :=
  if call.xferHandlerExists = false then (.remoteXferHandlerNotInitialized, st)
  else
    match call.keys with
    | none => (.serverError, st)
    | some keys =>
        let (numHitChunks, st) := batchedAsyncContains true keys st
        let (memObjs, st) := batchedGetNonBlocking (keys.take numHitChunks) (st.others call.beforeGet)
        let st := st.others call.beforeFinally
        match memObjs with
        | none => (.serverError, st)
        | some memObjs =>
            (if call.writeRaises then .serverError else .numHitChunks numHitChunks,
              releaseAll call.beforeRelease memObjs 0 st)

def allocateMissing (call : LookupAndPutCall) :
    List HotKey → ℕ → CPUState → Option (List (HotKey × ℕ)) × CPUState
  | [], _, st => (some [], st)
  | key :: keys, idx, st =>
      let st := st.others (call.beforeContains idx)
      if st.hotCache.contains key then allocateMissing call keys (idx + 1) st
      else if call.memIndexes ≤ idx then (none, st)
      else
        let st := st.others (call.beforeAllocate idx)
        if call.allocates idx then
          let (toRead, rest) := allocateMissing call keys (idx + 1) st.allocate
          (toRead.map ((key, st.nextObj) :: ·), rest)
        else (none, st)

def putAll (beforePut : ℕ → List EntryRemoval) : List (HotKey × ℕ) → ℕ → CPUState → CPUState
  | [], _, st => st
  | (key, obj) :: toRead, i, st =>
      putAll beforePut toRead (i + 1) ((st.others (beforePut i)).submitPutTask key obj)

def putRead (st : CPUState) (call : LookupAndPutCall) (keys : List HotKey) : ℕ × CPUState :=
  match allocateMissing call keys 0 st with
  | (none, st) => (0, st)
  | (some toRead, st) =>
      if call.readRaises then (0, st)
      else if call.useHot then (toRead.length, putAll call.beforePut toRead 0 st)
      else (toRead.length, st)

def collect (st : CPUState) (first : ℕ) (finalizes : ℕ → Bool) : CPUState :=
  { st with objs := fun obj =>
      if first ≤ obj ∧ obj < st.nextObj ∧ obj ∉ st.hotCache.values ∧ finalizes obj = true then
        (st.objs obj).free
      else st.objs obj }

def handleBatchedLookupAndPut (st : CPUState) (call : LookupAndPutCall) : ℕ × CPUState :=
  match call.keys with
  | none => (0, st)
  | some keys =>
      let (numReadChunks, after) := st.putRead call keys
      (numReadChunks, after.collect st.nextObj call.finalizes)

def handlePeer (st : CPUState) : PeerMsg → PeerReply × CPUState
  | .lookupAndGet call =>
      let (ret, st) := st.handleBatchedLookupAndGet call
      (.getRet ret, st)
  | .lookupAndPut call =>
      let (numReadChunks, st) := st.handleBatchedLookupAndPut call
      (.putRet numReadChunks, st)

structure PeerSettled (st st' : CPUState) : Prop where
  pins : ∀ obj < st.nextObj, (st'.objs obj).pinCount = (st.objs obj).pinCount
  references : ∀ obj < st.nextObj, (st'.objs obj).valid = true →
    (st'.objs obj).refCount = st'.hotCache.values.count obj + st.held obj
  fresh : ∀ obj, st.nextObj ≤ obj → obj < st'.nextObj →
    (st'.objs obj).valid = false ∨ obj ∈ st'.hotCache.values ∧ st'.canEvict obj = true

def HitsStay (st : CPUState) (call : LookupAndGetCall) : Prop :=
  ∀ keys ∈ call.keys, ∀ key ∈ keys.take (batchedAsyncContains true keys st).1,
    ((batchedAsyncContains true keys st).2.others call.beforeGet).hotCache.contains key = true

def NothingCached (call : LookupAndPutCall) : List HotKey → ℕ → Bool → CPUState → Prop
  | [], _, allocated, _ => allocated = false ∨ call.readRaises = true ∨ call.useHot = false
  | key :: keys, idx, allocated, st =>
      if (st.others (call.beforeContains idx)).hotCache.contains key then
        NothingCached call keys (idx + 1) allocated (st.others (call.beforeContains idx))
      else
        let before := (st.others (call.beforeContains idx)).others (call.beforeAllocate idx)
        call.memIndexes ≤ idx ∨ call.allocates idx = false ∨
          call.finalizes before.nextObj = true ∧
            NothingCached call keys (idx + 1) true before.allocate

def Undisturbed (st : CPUState) : PeerMsg → Prop
  | .lookupAndGet call => call.xferHandlerExists = false ∨ st.HitsStay call
  | .lookupAndPut call => ∀ keys ∈ call.keys, NothingCached call keys 0 false st

variable {cpu st st' : CPUState} {key : HotKey} {obj : ℕ}

theorem pinCount_refCountDown (m : MemObj) : m.refCountDown.pinCount = m.pinCount := by
  rw [MemObj.refCountDown]
  dsimp only
  split_ifs <;> rfl

theorem pinCount_unpin (m : MemObj) : m.unpin.pinCount = m.pinCount - 1 := by
  rw [MemObj.unpin]
  dsimp only
  split_ifs <;> rfl

structure Removed (st st' : CPUState) : Prop where
  nextObj : st'.nextObj = st.nextObj
  held : st'.held = st.held
  pins : ∀ obj, (st'.objs obj).pinCount = (st.objs obj).pinCount
  cached : ∀ key obj, st'.hotCache.get? key = some obj → st.hotCache.get? key = some obj

theorem removed_refl (st : CPUState) : Removed st st := ⟨rfl, rfl, fun _ => rfl, fun _ _ h => h⟩

variable {st'' : CPUState}

theorem Removed.trans (h : Removed st st') (h' : Removed st' st'') :
    Removed st st'' :=
  ⟨h'.nextObj.trans h.nextObj, h'.held.trans h.held, fun obj => (h'.pins obj).trans (h.pins obj),
    fun key obj hget => h.cached key obj (h'.cached key obj hget)⟩

variable {key' : HotKey}

theorem get?_of_get?_erase {d : Dict HotKey ℕ} (hget : (d.erase key').get? key = some obj) :
    d.get? key = some obj := by
  rw [Dict.get?_erase] at hget
  split_ifs at hget
  exact hget

theorem pinCount_pop (st : CPUState) (key : HotKey) (obj i : ℕ) :
    ((st.pop key obj).objs i).pinCount = (st.objs i).pinCount := by
  change (if i = obj then (st.objs i).refCountDown else st.objs i).pinCount = _
  split_ifs
  · exact pinCount_refCountDown _
  · rfl

theorem removed_remove (st : CPUState) (key : HotKey) : Removed st (st.remove key).2 := by
  rw [remove]
  split
  · exact removed_refl st
  · split
    all_goals exact ⟨rfl, rfl, fun obj => pinCount_pop st key _ obj, fun _ _ => get?_of_get?_erase⟩

theorem removed_evictKey (st : CPUState) (key : HotKey) : Removed st (st.evictKey key) := by
  rw [evictKey]
  split
  · exact removed_refl st
  · exact ⟨rfl, rfl, fun obj => pinCount_pop st key _ obj, fun _ _ => get?_of_get?_erase⟩

theorem removed_evictOne (st : CPUState) : Removed st st.evictOne.2 := by
  rw [evictOne]
  split
  · exact removed_refl st
  · exact ⟨rfl, rfl, fun _ => rfl, fun _ _ h => h⟩
  · rename_i key policy _
    have hevict := removed_evictKey { st with policy := policy } key
    exact ⟨hevict.nextObj, hevict.held, hevict.pins, hevict.cached⟩

theorem removed_queueEvict (st : CPUState) (key : HotKey) : Removed st (st.queueEvict key) := by
  rw [queueEvict]
  split_ifs
  · exact ⟨rfl, rfl, fun _ => rfl, fun _ _ h => h⟩
  · exact removed_refl st

variable {removal : EntryRemoval} {event : CPUEvent}

theorem removed_exec (hmem : event ∈ removal.events) (st : CPUState) :
    Removed st (st.exec event) := by
  cases removal with
  | remove key =>
    rcases mem_pair.mp hmem with rfl | rfl
    · exact removed_remove st key
    · exact removed_queueEvict st key
  | evictOne =>
    obtain rfl := mem_singleton.mp hmem
    exact removed_evictOne st

structure KeepsHeld (st st' : CPUState) : Prop where
  counted : st'.Counted
  removed : Removed st st'
  valid : ∀ obj, (st.objs obj).valid = true → 0 < st.held obj → (st'.objs obj).valid = true

theorem KeepsHeld.trans (h : KeepsHeld st st') (h' : KeepsHeld st' st'') :
    KeepsHeld st st'' := by
  refine ⟨h'.counted, h.removed.trans h'.removed, fun obj hvalid hheld => ?_⟩
  exact h'.valid obj (h.valid obj hvalid hheld) (h.removed.held ▸ hheld)

theorem keepsHeld_exec (hmem : event ∈ removal.events) (h : st.Counted) :
    KeepsHeld st (st.exec event) := by
  have hremoved := removed_exec hmem st
  have hevent : ∀ batchSize, event ≠ .evictBatch batchSize := by
    rintro batchSize rfl
    cases removal <;> simp [EntryRemoval.events] at hmem
  have hkept := (keepsCount_step h event hevent).1
  refine ⟨hkept.counted, hremoved, fun obj hvalid hheld => ?_⟩
  by_contra hfreed
  have hzero := (hkept.freesUnused obj hvalid (Bool.not_eq_true _ ▸ hfreed)).2
  rw [hremoved.held] at hzero
  omega

theorem keepsHeld_others (h : st.Counted) (removals : List EntryRemoval) :
    KeepsHeld st (st.others removals) := by
  have hrun : ∀ events : List CPUEvent, ∀ st : CPUState, st.Counted →
      (∀ event ∈ events, ∃ removal : EntryRemoval, event ∈ removal.events) →
      KeepsHeld st (final exec st events) := by
    intro events
    induction events with
    | nil => exact fun st h _ => ⟨h, removed_refl st, fun _ hvalid _ => hvalid⟩
    | cons event events ih =>
      intro st h hevents
      obtain ⟨removal, hmem⟩ := hevents event mem_cons_self
      have hstep := keepsHeld_exec hmem h
      exact hstep.trans (ih _ hstep.counted fun e he => hevents e (mem_cons_of_mem _ he))
  refine hrun _ st h fun event hmem => ?_
  obtain ⟨removal, _, hevent⟩ := mem_flatMap.mp hmem
  exact ⟨removal, hevent⟩

structure Owing (cpu st : CPUState) (pinned referenced : List ℕ) : Prop where
  counted : st.Counted
  nextObj : st.nextObj = cpu.nextObj
  pins : ∀ obj, (st.objs obj).pinCount = (cpu.objs obj).pinCount + pinned.count obj
  held : ∀ obj, st.held obj = cpu.held obj + referenced.count obj

variable {pinned referenced : List ℕ}

theorem Owing.others (h : Owing cpu st pinned referenced) (removals : List EntryRemoval) :
    Owing cpu (st.others removals) pinned referenced := by
  have hkept := keepsHeld_others h.counted removals
  exact ⟨hkept.counted, hkept.removed.nextObj.trans h.nextObj,
    fun obj => (hkept.removed.pins obj).trans (h.pins obj),
    fun obj => (congrFun hkept.removed.held obj).trans (h.held obj)⟩

theorem Owing.contains (h : Owing cpu st pinned referenced)
    (hget : st.hotCache.get? key = some obj) :
    Owing cpu (st.contains key true) (pinned ++ [obj]) referenced := by
  have hstored : st.hotCache.contains key = true := by rw [Dict.contains, hget]; rfl
  have hcontains : st.contains key true =
      { st with keysInRequest := st.keysInRequest ++ [key] }.modify obj MemObj.pin := by
    rw [CPUState.contains, hstored, Bool.and_true, if_pos rfl, modifyKey]
    dsimp only
    rw [hget]
  refine ⟨(keepsCount_contains h.counted true).counted, ?_, fun i => ?_, fun i => ?_⟩
  · rw [hcontains]
    exact h.nextObj
  · rw [hcontains]
    change (if i = obj then (st.objs i).pin else st.objs i).pinCount = _
    rw [count_append, count_singleton]
    split_ifs with heq hbeq hbeq
    · rw [MemObj.pin, h.pins]
      dsimp only
      omega
    · exact absurd heq.symm (by simpa using hbeq)
    · exact absurd (by simpa using hbeq) (Ne.symm heq)
    · exact h.pins i
  · rw [hcontains]
    exact h.held i

def CachedAs (st : CPUState) (key : HotKey) (obj : ℕ) : Prop := st.hotCache.get? key = some obj

theorem hotCache_contains (st : CPUState) (key : HotKey) (pin : Bool) :
    (st.contains key pin).hotCache = st.hotCache := by
  rw [contains]
  split_ifs
  · rw [modifyKey]
    split <;> rfl
  · rfl

theorem hotCache_getBlocking (st : CPUState) (key : HotKey) :
    (st.getBlocking key).hotCache = st.hotCache := by
  rw [getBlocking]
  split <;> rfl

theorem get?_of_contains (hstored : st.hotCache.contains key = true) :
    ∃ obj, st.hotCache.get? key = some obj := isSome_iff_exists.mp hstored

theorem Owing.lookup (h : Owing cpu st pinned referenced) (keys : List HotKey) :
    ∃ objs, List.Forall₂ st.CachedAs (keys.take (batchedAsyncContains true keys st).1) objs ∧
      (batchedAsyncContains true keys st).2.hotCache = st.hotCache ∧
        Owing cpu (batchedAsyncContains true keys st).2 (pinned ++ objs) referenced := by
  induction keys generalizing st pinned with
  | nil => exact ⟨[], .nil, rfl, (append_nil pinned).symm ▸ h⟩
  | cons key keys ih =>
    rw [batchedAsyncContains]
    split_ifs with hstored
    · obtain ⟨obj, hget⟩ := get?_of_contains hstored
      have hhot := hotCache_contains st key true
      obtain ⟨objs, hhits, hrest, howing⟩ := ih (h.contains hget)
      have hcached : (st.contains key true).CachedAs = st.CachedAs := by
        funext key' obj'
        rw [CachedAs, CachedAs, hhot]
      rw [hcached] at hhits
      rw [append_assoc] at howing
      exact ⟨obj :: objs, .cons hget hhits, hrest.trans hhot, howing⟩
    · exact ⟨[], .nil, rfl, (append_nil pinned).symm ▸ h⟩

theorem Owing.getBlocking (h : Owing cpu st pinned referenced)
    (hget : st.hotCache.get? key = some obj) :
    Owing cpu (st.getBlocking key) pinned (referenced ++ [obj]) := by
  have hblocking : st.getBlocking key =
      (st.modify obj MemObj.refCountUp).setHeld obj (st.held obj + 1) := by
    rw [CPUState.getBlocking, hget]
  refine ⟨(keepsCount_getBlocking h.counted).counted, ?_, fun i => ?_, fun i => ?_⟩
  · rw [hblocking]
    exact h.nextObj
  · rw [hblocking]
    refine Eq.trans ?_ (h.pins i)
    change (if i = obj then (st.objs i).refCountUp else st.objs i).pinCount = _
    split_ifs <;> rfl
  · rw [hblocking]
    change (if i = obj then st.held obj + 1 else st.held i) = _
    rw [count_append, count_singleton]
    split_ifs with heq hbeq hbeq
    · rw [heq, h.held]
      omega
    · exact absurd heq.symm (by simpa using hbeq)
    · exact absurd (by simpa using hbeq) (Ne.symm heq)
    · exact h.held i

theorem Owing.get (h : Owing cpu st pinned referenced) (keys : List HotKey) :
    ∃ objs, Owing cpu (batchedGetNonBlocking keys st).2 pinned (referenced ++ objs) ∧
      ∀ memObjs, (batchedGetNonBlocking keys st).1 = some memObjs → memObjs = objs := by
  induction keys generalizing st referenced with
  | nil => exact ⟨[], (append_nil referenced).symm ▸ h, fun _ hsome => (some.inj hsome).symm⟩
  | cons key keys ih =>
    rw [batchedGetNonBlocking]
    cases hget : st.hotCache.get? key with
    | none => exact ⟨[], (append_nil referenced).symm ▸ h, fun _ hsome => nomatch hsome⟩
    | some obj =>
      obtain ⟨objs, howing, hobjs⟩ := ih (h.getBlocking hget)
      rw [append_assoc] at howing
      refine ⟨obj :: objs, howing, fun memObjs hsome => ?_⟩
      obtain ⟨rest, hrest, rfl⟩ := map_eq_some_iff.mp hsome
      rw [hobjs rest hrest]

theorem batchedGetNonBlocking_eq_some (keys : List HotKey) (st : CPUState) (objs : List ℕ) :
    (batchedGetNonBlocking keys st).1 = some objs ↔ List.Forall₂ st.CachedAs keys objs := by
  induction keys generalizing st objs with
  | nil => simp [batchedGetNonBlocking, eq_comm]
  | cons key keys ih =>
    have hcached : (st.getBlocking key).CachedAs = st.CachedAs := by
      funext key' obj'
      rw [CachedAs, CachedAs, hotCache_getBlocking]
    rw [batchedGetNonBlocking, forall₂_cons_left_iff]
    cases hget : st.hotCache.get? key with
    | none => simp [CachedAs, hget]
    | some obj =>
      dsimp only
      rw [map_eq_some_iff]
      simp only [ih, hcached, CachedAs, hget, some.injEq]
      constructor
      · rintro ⟨rest, hrest, rfl⟩
        exact ⟨obj, rest, rfl, hrest, rfl⟩
      · rintro ⟨_, rest, rfl, hrest, rfl⟩
        exact ⟨rest, hrest, rfl⟩

theorem Owing.release (h : Owing cpu st (obj :: pinned) (obj :: referenced)) (hlt : obj < cpu.nextObj) :
    Owing cpu ((st.refCountDown obj).unpinObj obj) pinned referenced := by
  have hheld : 0 < st.held obj := by
    rw [h.held, count_cons_self]
    omega
  have hdown := (keepsCount_refCountDown h.counted hheld).counted
  refine ⟨?_, h.nextObj, fun i => ?_, fun i => ?_⟩
  · exact (keepsCount_modify hdown freesUnneeded_unpin rfl (fun _ _ => rfl)
      (fun hvalid => (refCount_unpin _).trans (hdown.counts obj hvalid)) (h.nextObj ▸ hlt) rfl
      hdown.consistent).counted
  · have hpins := h.pins i
    have hat : ((st.refCountDown obj).objs i).pinCount = (st.objs i).pinCount := by
      change (if i = obj then (st.objs i).refCountDown else st.objs i).pinCount = _
      split_ifs
      · exact pinCount_refCountDown _
      · rfl
    change (if i = obj then ((st.refCountDown obj).objs i).unpin
      else (st.refCountDown obj).objs i).pinCount = _
    split_ifs with heq
    · rw [heq, count_cons_self] at hpins
      rw [pinCount_unpin, hat, heq, hpins]
      omega
    · rw [count_cons_of_ne (Ne.symm heq)] at hpins
      rw [hat, hpins]
  · have hheld := h.held i
    change (if i = obj then st.held obj - 1 else st.held i) = _
    split_ifs with heq
    · rw [heq, count_cons_self] at hheld
      rw [heq, hheld]
      omega
    · rwa [count_cons_of_ne (Ne.symm heq)] at hheld

theorem Owing.releaseAll {beforeRelease : ℕ → List EntryRemoval} {memObjs : List ℕ} {i : ℕ}
    (h : Owing cpu st memObjs memObjs) (hlt : ∀ obj ∈ memObjs, obj < cpu.nextObj) :
    Owing cpu (releaseAll beforeRelease memObjs i st) [] [] := by
  induction memObjs generalizing st i with
  | nil => exact h
  | cons obj memObjs ih =>
    refine ih ?_ fun o ho => hlt o (mem_cons_of_mem _ ho)
    exact (h.others _).release (hlt obj mem_cons_self)

theorem Owing.settled (h : Owing cpu st [] []) : PeerSettled cpu st := by
  refine ⟨fun obj _ => h.pins obj, fun obj _ hvalid => ?_, fun obj hle hlt => ?_⟩
  · rw [h.counted.counts obj hvalid, refs, h.held]
    rfl
  · exact absurd (h.nextObj ▸ hlt) (not_lt.mpr hle)

theorem Owing.not_settled (h : Owing cpu st pinned referenced) (hmem : obj ∈ pinned)
    (hlt : obj < cpu.nextObj) : ¬ PeerSettled cpu st := by
  intro hsettled
  have hpins := h.pins obj
  rw [hsettled.pins obj hlt] at hpins
  have hpos := count_pos_iff.mpr hmem
  omega

theorem owing_refl (h : cpu.Counted) : Owing cpu cpu [] [] :=
  ⟨h, rfl, fun _ => rfl, fun _ => rfl⟩

variable {keys : List HotKey} {objs : List ℕ}

theorem forall₂_cachedAs_of_contains
    (hcached : ∀ key obj, st'.CachedAs key obj → st.CachedAs key obj)
    (hstored : ∀ key ∈ keys, st'.hotCache.contains key = true)
    (hobjs : List.Forall₂ st.CachedAs keys objs) : List.Forall₂ st'.CachedAs keys objs := by
  induction hobjs with
  | nil => exact .nil
  | cons hget _ ih =>
    obtain ⟨obj, hget'⟩ := get?_of_contains (hstored _ mem_cons_self)
    obtain rfl := some.inj (hget.symm.trans (hcached _ _ hget'))
    exact .cons hget' (ih fun key hkey => hstored key (mem_cons_of_mem _ hkey))

theorem eq_of_forall₂_cachedAs {objs objs' : List ℕ} (h : List.Forall₂ st.CachedAs keys objs)
    (h' : List.Forall₂ st.CachedAs keys objs') : objs = objs' := by
  induction h generalizing objs' with
  | nil =>
    cases h'
    rfl
  | cons hget _ ih =>
    cases h' with
    | cons hget' hrest =>
      obtain rfl := some.inj (hget.symm.trans hget')
      rw [ih hrest]

theorem lt_of_mem_cachedAs (h : st.Counted) (hobjs : List.Forall₂ st.CachedAs keys objs) :
    ∀ obj ∈ objs, obj < st.nextObj := by
  induction hobjs with
  | nil => simp
  | cons hget _ ih =>
    rw [forall_mem_cons]
    exact ⟨h.lt_of_get? hget, ih⟩

theorem contains_of_forall₂ (hobjs : List.Forall₂ st.CachedAs keys objs) :
    ∀ key ∈ keys, st.hotCache.contains key = true := by
  induction hobjs with
  | nil => simp
  | cons hget _ ih =>
    rw [forall_mem_cons]
    exact ⟨by rw [Dict.contains, hget]; rfl, ih⟩

theorem settled_get_iff (h : cpu.Counted) (call : LookupAndGetCall) :
    PeerSettled cpu (cpu.handleBatchedLookupAndGet call).2 ↔
      call.xferHandlerExists = false ∨ cpu.HitsStay call := by
  rw [handleBatchedLookupAndGet, HitsStay]
  by_cases hexists : call.xferHandlerExists = false
  · rw [if_pos hexists]
    exact iff_of_true (owing_refl h).settled (.inl hexists)
  rw [if_neg hexists, or_iff_right hexists]
  cases call.keys with
  | none => exact iff_of_true (owing_refl h).settled fun _ hkeys => nomatch hkeys
  | some keys =>
    simp only [mem_def, some.injEq, forall_eq']
    obtain ⟨objs, hhits, hhot, hlookup⟩ := (owing_refl h).lookup keys
    rw [nil_append] at hlookup
    have hlt := lt_of_mem_cachedAs h hhits
    have hremoved := (keepsHeld_others hlookup.counted call.beforeGet).removed
    have hcached : ∀ key obj, ((batchedAsyncContains true keys cpu).2.others
        call.beforeGet).CachedAs key obj → cpu.CachedAs key obj := by
      intro key obj hget
      have hget' := hremoved.cached key obj hget
      rwa [hhot] at hget'
    obtain ⟨extra, hget, hextra⟩ := (hlookup.others call.beforeGet).get
      (keys.take (batchedAsyncContains true keys cpu).1)
    have hsome := batchedGetNonBlocking_eq_some (keys.take (batchedAsyncContains true keys cpu).1)
      ((batchedAsyncContains true keys cpu).2.others call.beforeGet)
    cases hmem : (batchedGetNonBlocking (keys.take (batchedAsyncContains true keys cpu).1)
        ((batchedAsyncContains true keys cpu).2.others call.beforeGet)).1 with
    | none =>
      rw [hmem] at hsome
      have hgone : objs ≠ [] := by
        rintro rfl
        cases (hsome []).mpr (by rw [forall₂_nil_right_iff.mp hhits]; exact .nil)
      obtain ⟨obj, hobj⟩ := exists_mem_of_ne_nil objs hgone
      refine iff_of_false ((hget.others call.beforeFinally).not_settled hobj (hlt obj hobj)) ?_
      intro hstay
      cases (hsome objs).mpr (forall₂_cachedAs_of_contains hcached hstay hhits)
    | some memObjs =>
      have hgot := (hsome memObjs).mp hmem
      obtain rfl := hextra memObjs hmem
      obtain rfl := eq_of_forall₂_cachedAs hhits (hgot.imp fun key obj => hcached key obj)
      rw [nil_append] at hget
      exact iff_of_true ((hget.others call.beforeFinally).releaseAll hlt).settled
        (contains_of_forall₂ hgot)

structure Allocated (cpu st : CPUState) (n : ℕ) : Prop where
  counted : st.Counted
  nextObj : st.nextObj = cpu.nextObj + n
  pins : ∀ obj < cpu.nextObj, (st.objs obj).pinCount = (cpu.objs obj).pinCount
  held : ∀ obj < cpu.nextObj, st.held obj = cpu.held obj
  fresh : ∀ obj, cpu.nextObj ≤ obj → obj < st.nextObj → (st.objs obj).valid = true ∧ 0 < st.held obj

variable {n : ℕ}

theorem allocated_refl (h : cpu.Counted) : Allocated cpu cpu 0 :=
  ⟨h, rfl, fun _ _ => rfl, fun _ _ => rfl, fun _ hle hlt => absurd hlt (not_lt.mpr hle)⟩

theorem Allocated.others (h : Allocated cpu st n) (removals : List EntryRemoval) :
    Allocated cpu (st.others removals) n := by
  have hkept := keepsHeld_others h.counted removals
  refine ⟨hkept.counted, hkept.removed.nextObj.trans h.nextObj,
    fun obj hlt => (hkept.removed.pins obj).trans (h.pins obj hlt),
    fun obj hlt => (congrFun hkept.removed.held obj).trans (h.held obj hlt), fun obj hle hlt => ?_⟩
  rw [hkept.removed.nextObj] at hlt
  obtain ⟨hvalid, hheld⟩ := h.fresh obj hle hlt
  exact ⟨hkept.valid obj hvalid hheld, hkept.removed.held ▸ hheld⟩

theorem Allocated.allocate (h : Allocated cpu st n) : Allocated cpu st.allocate (n + 1) := by
  have hobjs : ∀ i, st.allocate.objs i = if i = st.nextObj then ⟨true, 1, 0⟩ else st.objs i :=
    fun _ => rfl
  have hheld : ∀ i, st.allocate.held i = if i = st.nextObj then 1 else st.held i := fun _ => rfl
  have hnext := h.nextObj
  refine ⟨(keepsCount_allocate h.counted).counted, ?_, fun obj hlt => ?_, fun obj hlt => ?_,
    fun obj hle hlt => ?_⟩
  · change st.nextObj + 1 = _
    omega
  · rw [hobjs, if_neg (by omega)]
    exact h.pins obj hlt
  · rw [hheld, if_neg (by omega)]
    exact h.held obj hlt
  · change obj < st.nextObj + 1 at hlt
    rw [hobjs, hheld]
    split_ifs with heq
    · exact ⟨rfl, Nat.one_pos⟩
    · exact h.fresh obj hle (by omega)

theorem Allocated.submitPutTask (h : Allocated cpu st n) (hlt : obj < st.nextObj) :
    Allocated cpu (st.submitPutTask key obj) n := by
  have hcounted : (st.submitPutTask key obj).Counted :=
    (keepsCount_submitPutTask h.counted hlt).counted
  rw [CPUState.submitPutTask] at hcounted ⊢
  split_ifs at hcounted ⊢
  · exact h
  · refine ⟨hcounted, h.nextObj, fun i hi => ?_, h.held, fun i hle hi => ?_⟩
    · refine Eq.trans ?_ (h.pins i hi)
      change (if i = obj then (st.objs i).refCountUp else st.objs i).pinCount = _
      split_ifs <;> rfl
    · obtain ⟨hvalid, hheld⟩ := h.fresh i hle hi
      refine ⟨?_, hheld⟩
      change (if i = obj then (st.objs i).refCountUp else st.objs i).valid = true
      split_ifs
      · exact hvalid
      · exact hvalid

variable {toRead : List (HotKey × ℕ)}

theorem Allocated.putAll (h : Allocated cpu st n) (beforePut : ℕ → List EntryRemoval) (i : ℕ)
    (hlt : ∀ p ∈ toRead, p.2 < cpu.nextObj + n) :
    Allocated cpu (putAll beforePut toRead i st) n := by
  induction toRead generalizing st i with
  | nil => exact h
  | cons p toRead ih =>
    rw [forall_mem_cons] at hlt
    have hothers := h.others (beforePut i)
    exact ih (hothers.submitPutTask (hothers.nextObj.symm ▸ hlt.1)) (i + 1) hlt.2

theorem cachedAs_submitPutTask (st : CPUState) (key : HotKey) (obj : ℕ) {obj' : ℕ}
    (hget : (st.submitPutTask key obj).CachedAs key' obj') :
    st.CachedAs key' obj' ∨ obj' = obj := by
  rw [submitPutTask] at hget
  split_ifs at hget
  · exact .inl hget
  · change (st.hotCache.set key obj).get? key' = some obj' at hget
    rw [Dict.get?_set] at hget
    split_ifs at hget
    · exact .inr (some.inj hget).symm
    · exact .inl hget

theorem exists_cachedAs_submitPutTask (st : CPUState) (key : HotKey) (obj : ℕ) :
    ∃ obj', (st.submitPutTask key obj).CachedAs key obj' := by
  rw [submitPutTask]
  split_ifs with hstored
  · exact get?_of_contains hstored
  · exact ⟨obj, Dict.get?_set_self _ _ _⟩

theorem exists_new_putAll (beforePut : ℕ → List EntryRemoval) (i : ℕ) {first : ℕ} (h : st.Counted)
    (hobjs : ∀ p ∈ toRead, first ≤ p.2 ∧ p.2 < st.nextObj)
    (hnew : ∀ p ∈ toRead, ∀ obj, st.CachedAs p.1 obj → first ≤ obj) (hne : toRead ≠ []) :
    ∃ key obj, (putAll beforePut toRead i st).CachedAs key obj ∧ first ≤ obj := by
  induction toRead generalizing st i with
  | nil => exact absurd rfl hne
  | cons p toRead ih =>
    obtain ⟨key, obj⟩ := p
    have hothers := keepsHeld_others h (beforePut i)
    have hlt : ∀ p ∈ (key, obj) :: toRead, first ≤ p.2 ∧ p.2 < (st.others (beforePut i)).nextObj := by
      rw [hothers.removed.nextObj]
      exact hobjs
    have hput : ((st.others (beforePut i)).submitPutTask key obj).Counted :=
      (keepsCount_submitPutTask hothers.counted (hlt (key, obj) mem_cons_self).2).counted
    have hcached : ∀ p ∈ (key, obj) :: toRead, ∀ obj',
        ((st.others (beforePut i)).submitPutTask key obj).CachedAs p.1 obj' → first ≤ obj' := by
      intro p hp obj' hget
      rcases cachedAs_submitPutTask _ key obj hget with hold | rfl
      · exact hnew p hp obj' (hothers.removed.cached _ _ hold)
      · exact (hlt (key, obj') mem_cons_self).1
    have hnext : ((st.others (beforePut i)).submitPutTask key obj).nextObj =
        (st.others (beforePut i)).nextObj := by
      rw [submitPutTask]
      split_ifs <;> rfl
    by_cases hrest : toRead = []
    · obtain ⟨obj', hget⟩ := exists_cachedAs_submitPutTask (st.others (beforePut i)) key obj
      rw [hrest]
      exact ⟨key, obj', hget, hcached (key, obj) mem_cons_self obj' hget⟩
    · refine ih (i + 1) hput (fun p hp => ?_) (fun p hp => hcached p (mem_cons_of_mem _ hp)) hrest
      rw [hnext]
      exact hlt p (mem_cons_of_mem _ hp)

structure LoopDone (cpu : CPUState) (call : LookupAndPutCall) (keys : List HotKey) (idx n : ℕ)
    (st : CPUState) (m : ℕ) : Prop where
  allocated : Allocated cpu (allocateMissing call keys idx st).2 (n + m)
  cached : ∀ key obj, (allocateMissing call keys idx st).2.CachedAs key obj → st.CachedAs key obj
  toRead : ∀ toRead ∈ (allocateMissing call keys idx st).1, toRead.length = m ∧
    ∀ p ∈ toRead, cpu.nextObj ≤ p.2 ∧ p.2 < cpu.nextObj + (n + m) ∧
      ∀ obj, ¬ (allocateMissing call keys idx st).2.CachedAs p.1 obj
  nothingCached : NothingCached call keys idx (decide (0 < n)) st ↔
    (∀ i, n ≤ i → i < n + m → call.finalizes (cpu.nextObj + i) = true) ∧
      ((allocateMissing call keys idx st).1 = none ∨ n + m = 0 ∨ call.readRaises = true ∨
        call.useHot = false)

theorem Allocated.allocateMissing (h : Allocated cpu st n) (call : LookupAndPutCall)
    (keys : List HotKey) (idx : ℕ) : ∃ m, LoopDone cpu call keys idx n st m := by
  induction keys generalizing st n idx with
  | nil =>
    refine ⟨0, h, fun _ _ hget => hget, fun toRead hsome => ?_, ?_⟩
    · cases hsome
      simp
    · rw [NothingCached, allocateMissing]
      simp only [decide_eq_false_iff_not, not_lt, Nat.le_zero_eq, Nat.add_zero, reduceCtorEq, false_or]
      exact ⟨fun hquiet => ⟨fun i hle hlt => absurd hlt (not_lt.mpr hle), hquiet⟩, And.right⟩
  | cons key keys ih =>
    have hothers := h.others (call.beforeContains idx)
    have hremoved := (keepsHeld_others h.counted (call.beforeContains idx)).removed
    have hbefore := hothers.others (call.beforeAllocate idx)
    have hremoved' := (keepsHeld_others hothers.counted (call.beforeAllocate idx)).removed
    by_cases hstored : (st.others (call.beforeContains idx)).hotCache.contains key = true
    · obtain ⟨m, hdone⟩ := ih hothers (idx + 1)
      refine ⟨m, ?_, ?_, ?_, ?_⟩
      all_goals rw [allocateMissing]
      all_goals simp only [hstored, if_true]
      · exact hdone.allocated
      · exact fun key' obj' hget => hremoved.cached _ _ (hdone.cached key' obj' hget)
      · exact hdone.toRead
      · rw [NothingCached, if_pos hstored]
        exact hdone.nothingCached
    by_cases hindex : call.memIndexes ≤ idx
    · refine ⟨0, ?_, ?_, ?_, ?_⟩
      all_goals rw [allocateMissing]
      all_goals simp only [hstored, Bool.false_eq_true, if_false, if_pos hindex]
      · exact hothers
      · exact fun key' obj' hget => hremoved.cached _ _ hget
      · exact fun _ hsome => nomatch hsome
      · rw [NothingCached, if_neg hstored]
        exact iff_of_true (.inl hindex) ⟨fun i hle hlt => absurd hlt (not_lt.mpr hle), .inl trivial⟩
    by_cases hallocates : call.allocates idx = true
    · obtain ⟨m, hdone⟩ := ih hbefore.allocate (idx + 1)
      have hm : n + (m + 1) = n + 1 + m := by omega
      refine ⟨m + 1, ?_, ?_, ?_, ?_⟩
      all_goals rw [allocateMissing]
      all_goals simp only [hstored, Bool.false_eq_true, if_false, if_neg hindex, hallocates, if_true]
      · rw [hm]
        exact hdone.allocated
      · exact fun key' obj' hget =>
          hremoved.cached _ _ (hremoved'.cached _ _ (hdone.cached key' obj' hget))
      · intro toRead hsome
        obtain ⟨rest, hrest, rfl⟩ := map_eq_some_iff.mp hsome
        obtain ⟨hlength, hobjs⟩ := hdone.toRead rest hrest
        rw [hm]
        refine ⟨by rw [length_cons, hlength], forall_mem_cons.mpr ⟨?_, hobjs⟩⟩
        rw [hbefore.nextObj]
        refine ⟨by omega, by omega, fun obj hget => ?_⟩
        have hcached := hremoved'.cached _ _ (hdone.cached key obj hget)
        exact hstored (by rw [Dict.contains, hcached]; rfl)
      · rw [NothingCached, if_neg hstored]
        have hrest := hdone.nothingCached
        rw [decide_eq_true (succ_pos n)] at hrest
        simp only [hindex, hallocates, false_or, Bool.true_eq_false, hrest, hbefore.nextObj,
          map_eq_none_iff, hm, ← and_assoc]
        refine and_congr_left fun _ => ⟨?_, fun hall => ?_⟩
        · rintro ⟨hfirst, hall⟩ i hle hlt
          rcases eq_or_lt_of_le hle with rfl | hlt'
          · exact hfirst
          · exact hall i hlt' hlt
        · exact ⟨hall n le_rfl (by omega), fun i hle hlt => hall i (by omega) hlt⟩
    · refine ⟨0, ?_, ?_, ?_, ?_⟩
      all_goals rw [allocateMissing]
      all_goals simp only [hstored, Bool.false_eq_true, if_false, if_neg hindex, hallocates]
      · exact hbefore
      · exact fun key' obj' hget => hremoved.cached _ _ (hremoved'.cached _ _ hget)
      · exact fun _ hsome => nomatch hsome
      · rw [NothingCached, if_neg hstored]
        exact iff_of_true (.inr (.inl (Bool.not_eq_true _ ▸ hallocates)))
          ⟨fun i hle hlt => absurd hlt (not_lt.mpr hle), .inl trivial⟩

theorem Allocated.settled_iff (h : Allocated cpu st n) (finalizes : ℕ → Bool) :
    PeerSettled cpu (st.collect cpu.nextObj finalizes) ↔
      ∀ i < n, cpu.nextObj + i ∉ st.hotCache.values ∧ finalizes (cpu.nextObj + i) = true := by
  have hobjs : ∀ obj < cpu.nextObj, (st.collect cpu.nextObj finalizes).objs obj = st.objs obj :=
    fun obj hlt => if_neg fun hnew => absurd hnew.1 (not_le.mpr hlt)
  constructor
  · intro hsettled i hi
    have hle : cpu.nextObj ≤ cpu.nextObj + i := le_add_right _ _
    have hlt : cpu.nextObj + i < st.nextObj := by
      rw [h.nextObj]
      omega
    obtain ⟨hvalid, hheld⟩ := h.fresh _ hle hlt
    by_contra hcached
    have hsame : (st.collect cpu.nextObj finalizes).objs (cpu.nextObj + i) =
        st.objs (cpu.nextObj + i) := if_neg fun hnew => hcached hnew.2.2
    rcases hsettled.fresh _ hle hlt with hfreed | ⟨hmem, hevict⟩
    · rw [hsame, hvalid] at hfreed
      cases hfreed
    · have hrefs := h.counted.counts _ hvalid
      have hcount := count_pos_iff.mpr hmem
      rw [canEvict, hsame, MemObj.canEvict, decide_eq_true_iff] at hevict
      change 0 < st.hotCache.values.count _ at hcount
      rw [hevict.2, refs] at hrefs
      omega
  · intro hfinal
    refine ⟨fun obj hlt => ?_, fun obj hlt hvalid => ?_, fun obj hle hlt => .inl ?_⟩
    · rw [hobjs obj hlt]
      exact h.pins obj hlt
    · rw [hobjs obj hlt] at hvalid ⊢
      rw [h.counted.counts obj hvalid, refs, h.held obj hlt]
      rfl
    · have hi := hfinal (obj - cpu.nextObj) (by
        have hnext := h.nextObj
        change obj < st.nextObj at hlt
        omega)
      rw [Nat.add_sub_cancel' hle] at hi
      exact congrArg MemObj.valid (if_pos ⟨hle, hlt, hi.1, hi.2⟩)

theorem settled_put_iff (h : cpu.Counted) (call : LookupAndPutCall) :
    PeerSettled cpu (cpu.handleBatchedLookupAndPut call).2 ↔
      ∀ keys ∈ call.keys, NothingCached call keys 0 false cpu := by
  rw [handleBatchedLookupAndPut]
  cases call.keys with
  | none => exact iff_of_true (owing_refl h).settled fun _ hkeys => nomatch hkeys
  | some keys =>
    simp only [mem_def, some.injEq, forall_eq']
    obtain ⟨m, hdone⟩ := (allocated_refl h).allocateMissing call keys 0
    obtain ⟨hallocated, hcached, htoRead, hnothing⟩ := hdone
    rw [decide_eq_false (Nat.lt_irrefl 0)] at hnothing
    rw [hnothing, putRead]
    simp only [Nat.zero_add, Nat.zero_le, forall_true_left] at hallocated htoRead ⊢
    have huncached : (∀ i < m, cpu.nextObj + i ∉ (allocateMissing call keys 0 cpu).2.hotCache.values ∧
        call.finalizes (cpu.nextObj + i) = true) ↔
          ∀ i < m, call.finalizes (cpu.nextObj + i) = true := by
      refine forall₂_congr fun i _ => and_iff_right fun hmem => ?_
      obtain ⟨key, hget⟩ := (Dict.mem_values_iff _ _).mp hmem
      have hlt := h.lt_of_get? (hcached key _ hget)
      omega
    have hread := hallocated.settled_iff call.finalizes
    rw [huncached] at hread
    cases hloop : allocateMissing call keys 0 cpu with | mk toRead? rest =>
    rw [hloop] at hallocated htoRead hread
    cases toRead? with
    | none => simp [hread]
    | some toRead =>
      obtain ⟨hlength, hobjs⟩ := htoRead toRead rfl
      dsimp only
      by_cases hraises : call.readRaises = true
      · simp [hraises, hread]
      by_cases hhot : call.useHot = true
      · simp only [hraises, hhot, if_true, if_false, Bool.false_eq_true]
        by_cases hm : m = 0
        · have hnil := length_eq_zero_iff.mp (hlength.trans hm)
          rw [hnil, putAll]
          simp [hread, hm]
        · have hne : toRead ≠ [] := fun hnil => hm (by rw [← hlength, hnil, length_nil])
          have hput := hallocated.putAll call.beforePut 0
            fun p hp => (hobjs p hp).2.1
          obtain ⟨key, obj, hget, hle⟩ := exists_new_putAll call.beforePut 0
            hallocated.counted (fun p hp => ⟨(hobjs p hp).1, hallocated.nextObj ▸ (hobjs p hp).2.1⟩)
            (fun p hp o hget => absurd hget ((hobjs p hp).2.2 o)) hne
          have hlt := hput.counted.lt_of_get? hget
          rw [hput.nextObj] at hlt
          refine iff_of_false (fun hsettled => ?_) (by simp [hm])
          have hgone := ((hput.settled_iff call.finalizes).mp hsettled
            (obj - cpu.nextObj) (by omega)).1
          rw [Nat.add_sub_cancel' hle] at hgone
          exact hgone ((Dict.mem_values_iff _ _).mpr ⟨key, hget⟩)
      · simp [hraises, hhot, hread]

theorem settled_handlePeer_iff (h : cpu.Counted) (msg : PeerMsg) :
    PeerSettled cpu (cpu.handlePeer msg).2 ↔ cpu.Undisturbed msg := by
  cases msg with
  | lookupAndGet call => exact settled_get_iff h call
  | lookupAndPut call => exact settled_put_iff h call

def peerChunk : HotKey := .chunk ⟨['m'], 1, 0, 5, ['h', 'a', 'l', 'f'], []⟩

def storedPeerChunk : CPUState :=
  final exec (start .lru) [.allocate, .submitPutTask peerChunk 0, .refCountDown 0]

def getOne : PeerMsg := .lookupAndGet ⟨true, some [peerChunk], [], [], fun _ => [], false⟩

theorem settled_handlePeer_getOne :
    (storedPeerChunk.handlePeer getOne).1 = .getRet (.numHitChunks 1) ∧
      PeerSettled storedPeerChunk (storedPeerChunk.handlePeer getOne).2 := by
  have hcounted : storedPeerChunk.Counted :=
    counted_step (counted_step (counted_step (counted_start .lru) .allocate trivial)
      (.submitPutTask peerChunk 0) trivial) (.refCountDown 0) trivial
  refine ⟨rfl, (settled_handlePeer_iff hcounted getOne).mpr (.inr ?_)⟩
  intro keys hkeys key hkey
  obtain rfl : [peerChunk] = keys := some.inj hkeys
  obtain rfl := mem_singleton.mp (mem_of_mem_take hkey)
  decide

def putOne : LookupAndPutCall where
  keys := some [peerChunk]
  memIndexes := 1
  beforeContains := fun _ => []
  beforeAllocate := fun _ => []
  allocates := fun _ => true
  finalizes := fun _ => true
  readRaises := false
  useHot := true
  beforePut := fun _ => []

theorem not_settled_putOne :
    ¬ PeerSettled (start .lru) ((start .lru).handlePeer (.lookupAndPut putOne)).2 := by
  intro hsettled
  have hfresh := hsettled.fresh 0 (by decide) (by decide)
  revert hfresh
  decide

end CPUState

end LMCache
