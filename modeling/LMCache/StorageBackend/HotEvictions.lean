import LMCache.StorageBackend.HotReferences
import LMCache.Foundations.Execution

namespace LMCache

open CachePolicy List

namespace CPUState

open Execution MemObj

variable {st st' : CPUState} {key : HotKey} {obj batchSize : ℕ} {keys layers : List HotKey}

structure Unchanged (st st' : CPUState) : Prop where
  hotCache : st'.hotCache = st.hotCache
  policy : st'.policy = st.policy
  refCount : ∀ obj, (st'.objs obj).refCount = (st.objs obj).refCount

def SafeStep (st : CPUState) (event : CPUEvent) : Prop :=
  FreesUnused st (st.exec event) ∧ ((st.step event).1 = true → Unchanged st (st.exec event))

def AllUnused (st : CPUState) (layers : List HotKey) : Prop :=
  ∀ key ∈ layers, ∃ obj, st.hotCache.get? key = some obj ∧
    ((st.objs obj).valid = true → (st.objs obj).pinCount = 0 ∧ st.held obj = 0)

def FailsEarly (st : CPUState) (layers : List HotKey) : Prop :=
  st.policy.kind ≠ .lfu ∧ ∃ key keys, layers = key :: keys ∧ st.hotCache.get? key = none

def ClearBatch (st : CPUState) : CPUEvent → Prop
  | .evictBatch batchSize => ∀ key policy,
      st.policy.getEvictCandidates st.canEvict st.hotCache = some (some key, policy) →
        AllUnused st (key.splitLayers batchSize) ∨ FailsEarly st (key.splitLayers batchSize)
  | _ => True

structure Popped (st st' : CPUState) : Prop where
  objs : st'.objs = st.objs
  held : st'.held = st.held
  nextObj : st'.nextObj = st.nextObj
  forgets : CachePolicy.Forgets st.policy st'.policy
  hotCache : ∀ key obj, st'.hotCache.get? key = some obj → st.hotCache.get? key = some obj

theorem Popped.refl (st : CPUState) : Popped st st :=
  ⟨rfl, rfl, rfl, .refl _, fun _ _ h => h⟩

theorem Popped.trans {st'' : CPUState} (h : Popped st st') (h' : Popped st' st'') :
    Popped st st'' where
  objs := h'.objs.trans h.objs
  held := h'.held.trans h.held
  nextObj := h'.nextObj.trans h.nextObj
  forgets := h.forgets.trans h'.forgets
  hotCache key obj hget := h.hotCache key obj (h'.hotCache key obj hget)

theorem popped_layer {policy : CachePolicy HotKey}
    (hevict : st.policy.updateOnForceEvict key = some policy) :
    Popped st { st with policy := policy, hotCache := st.hotCache.erase key } := by
  refine ⟨rfl, rfl, rfl, forgets_updateOnForceEvict hevict, fun key' obj hget => ?_⟩
  change (st.hotCache.erase key).get? key' = some obj at hget
  rw [Dict.get?_erase] at hget
  split_ifs at hget
  exact hget

theorem popped_popLayers (keys : List HotKey) (oldMemObjs : List ℕ) (st : CPUState) :
    Popped st (popLayers keys oldMemObjs st).2 := by
  induction keys generalizing oldMemObjs st with
  | nil => exact .refl st
  | cons key keys ih =>
    rw [popLayers]
    split
    · exact .refl st
    · split
      · exact .refl st
      · rename_i hevict
        exact (popped_layer hevict).trans (ih _ _)

theorem popLayers_some {oldMemObjs : List ℕ} {objs : List ℕ} (keys : List HotKey) (st : CPUState)
    (h : (popLayers keys oldMemObjs st).1 = some objs) :
    ∃ popped, objs = oldMemObjs ++ popped ∧
      (∀ obj ∈ popped, ∃ key ∈ keys, st.hotCache.get? key = some obj) ∧
      (∀ key ∈ keys, ∃ obj ∈ popped, st.hotCache.get? key = some obj) ∧
      (popped ++ (popLayers keys oldMemObjs st).2.hotCache.values).Perm st.hotCache.values := by
  induction keys generalizing oldMemObjs st with
  | nil =>
    obtain rfl := Option.some.inj h
    exact ⟨[], (append_nil _).symm, fun _ h => absurd h not_mem_nil,
      fun _ h => absurd h not_mem_nil, .refl _⟩
  | cons key keys ih =>
    rw [popLayers] at h ⊢
    cases hget : st.hotCache.get? key with
    | none => simp [hget] at h
    | some obj =>
      rw [hget] at h
      dsimp only at h ⊢
      cases hevict : st.policy.updateOnForceEvict key with
      | none => simp [hevict] at h
      | some policy =>
        rw [hevict] at h
        dsimp only at h ⊢
        obtain ⟨popped, rfl, hfrom, hall, hperm⟩ := ih _ h
        have hpopped := popped_layer hevict
        have herase := st.hotCache.values_erase_perm key
        rw [hget] at herase
        refine ⟨obj :: popped, append_assoc _ _ _, fun i hi => ?_, fun key' hkey' => ?_,
          (hperm.cons obj).trans herase⟩
        · rcases mem_cons.mp hi with rfl | hi
          · exact ⟨key, mem_cons_self, hget⟩
          · obtain ⟨key', hkey', hget'⟩ := hfrom i hi
            exact ⟨key', mem_cons_of_mem _ hkey', hpopped.hotCache _ _ hget'⟩
        · rcases mem_cons.mp hkey' with rfl | hkey'
          · exact ⟨obj, mem_cons_self, hget⟩
          · obtain ⟨i, hi, hget'⟩ := hall key' hkey'
            exact ⟨i, mem_cons_of_mem _ hi, hpopped.hotCache _ _ hget'⟩

theorem popLayers_of_stored (oldMemObjs : List ℕ) (keys : List HotKey) (st : CPUState)
    (hnodup : keys.Nodup) (hconsistent : st.policy.Consistent)
    (hstored : ∀ key ∈ keys, ∃ obj, st.hotCache.get? key = some obj) :
    ∃ objs, (popLayers keys oldMemObjs st).1 = some objs := by
  induction keys generalizing oldMemObjs st with
  | nil => exact ⟨oldMemObjs, rfl⟩
  | cons key keys ih =>
    obtain ⟨hnot, hrest⟩ := nodup_cons.mp hnodup
    obtain ⟨obj, hget⟩ := hstored key mem_cons_self
    obtain ⟨policy, hevict⟩ := hconsistent.isSome_updateOnForceEvict key
    rw [popLayers, hget]
    dsimp only
    rw [hevict]
    refine ih _ _ hrest ((forgets_updateOnForceEvict hevict).consistent hconsistent)
      fun key' hkey' => ?_
    obtain ⟨obj', hget'⟩ := hstored key' (mem_cons_of_mem _ hkey')
    refine ⟨obj', ?_⟩
    have hne : key ≠ key' := fun heq => hnot (heq ▸ hkey')
    rw [Dict.get?_erase, if_neg hne]
    exact hget'

theorem popLayers_first (hconsistent : st.policy.Consistent) (hget : st.hotCache.get? key = some obj) :
    (popLayers (key :: keys) [] st).2.hotCache ≠ st.hotCache := by
  obtain ⟨policy, hevict⟩ := hconsistent.isSome_updateOnForceEvict key
  rw [popLayers, hget]
  dsimp only
  rw [hevict]
  intro heq
  have hpopped := popped_popLayers keys ([] ++ [obj])
    { st with policy := policy, hotCache := st.hotCache.erase key }
  dsimp only at heq
  have hkept : (st.hotCache.erase key).get? key = some obj :=
    hpopped.hotCache key obj (by rw [heq]; exact hget)
  rw [Dict.get?_erase, if_pos rfl] at hkept
  exact absurd hkept (by simp)

theorem evictLayers_of_none (h : (popLayers layers [] st).1 = none) :
    st.evictLayers layers = (true, (popLayers layers [] st).2) := by
  rw [evictLayers]
  split
  · rename_i hresult
    rw [hresult]
  · rename_i hresult
    rw [hresult] at h
    exact absurd h (by simp)

theorem evictLayers_of_some {objs : List ℕ} (h : (popLayers layers [] st).1 = some objs) :
    st.evictLayers layers = (false, (popLayers layers [] st).2.batchedFree objs) := by
  rw [evictLayers]
  split
  · rename_i hresult
    rw [hresult] at h
    exact absurd h (by simp)
  · rename_i hresult
    rw [hresult] at h
    obtain rfl := Option.some.inj h
    rw [hresult]

theorem keepsCount_evictLayers (h : st.Counted) (hnodup : layers.Nodup)
    (hunused : AllUnused st layers) :
    KeepsCount st (st.evictLayers layers).2 ∧ (st.evictLayers layers).1 = false := by
  obtain ⟨objs, hobjs⟩ := popLayers_of_stored [] layers st hnodup h.consistent fun key hkey =>
    (hunused key hkey).imp fun _ hstored => hstored.1
  have hpopped := popped_popLayers layers [] st
  obtain ⟨popped, hpoppedObjs, hfrom, _, hperm⟩ := popLayers_some layers st hobjs
  obtain rfl : objs = popped := hpoppedObjs
  rw [evictLayers_of_some hobjs]
  generalize (popLayers layers [] st).2 = left at hpopped hperm
  have hat : ∀ i, (left.batchedFree objs).objs i =
      if i ∈ objs then (st.objs i).free else st.objs i := by
    intro i
    rw [← hpopped.objs]
    rfl
  have hrefs : ∀ i, st.refs i = objs.count i + (left.batchedFree objs).refs i := by
    intro i
    have hcount := hperm.count_eq i
    rw [count_append] at hcount
    change st.hotCache.values.count i + st.held i = objs.count i +
      (left.hotCache.values.count i + left.held i)
    rw [hpopped.held]
    omega
  refine ⟨⟨⟨fun i hvalid => ?_, fun i hle => ?_, hpopped.forgets.consistent h.consistent⟩,
    fun i hvalid hfreed => ?_⟩, rfl⟩
  · rw [hat] at hvalid ⊢
    split_ifs at hvalid ⊢ with hmem
    · exact absurd hvalid Bool.false_ne_true
    · have hsplit := hrefs i
      rw [count_eq_zero_of_not_mem hmem, Nat.zero_add] at hsplit
      exact (h.counts i hvalid).trans hsplit
  · change left.nextObj ≤ i at hle
    change (left.batchedFree objs).refs i = 0
    rw [hpopped.nextObj] at hle
    have hzero := h.fresh i hle
    have hsplit := hrefs i
    omega
  · rw [hat] at hfreed ⊢
    split_ifs at hfreed ⊢ with hmem
    · obtain ⟨key, hkey, hget⟩ := hfrom i hmem
      obtain ⟨obj, hget', hneeded⟩ := hunused key hkey
      obtain rfl := Option.some.inj (hget.symm.trans hget')
      obtain ⟨hpins, hheld⟩ := hneeded hvalid
      exact ⟨hpins, (congrFun hpopped.held i).trans hheld⟩
    · exact absurd (hvalid.symm.trans hfreed) (by simp)

theorem evictLayers_of_missing (hmissing : st.hotCache.get? key = none) (keys : List HotKey)
    (policy : CachePolicy HotKey) : { st with policy := policy }.evictLayers (key :: keys) =
      (true, { st with policy := policy }) := by
  rw [evictLayers, popLayers]
  dsimp only
  rw [hmissing]

theorem unused_of_safe (h : st.Counted) {policy : CachePolicy HotKey}
    (hcandidate : st.policy.getEvictCandidates st.canEvict st.hotCache = some (some key, policy))
    (hfrees : FreesUnused st ({ st with policy := policy }.evictLayers layers).2)
    (hunchanged : ({ st with policy := policy }.evictLayers layers).1 = true →
      Unchanged st ({ st with policy := policy }.evictLayers layers).2) :
    AllUnused st layers ∨ FailsEarly st layers := by
  obtain ⟨hforgets, hforgotten⟩ := forgets_getEvictCandidates hcandidate
  have hpopped := popped_popLayers layers [] { st with policy := policy }
  cases hresult : (popLayers layers [] { st with policy := policy }).1 with
  | some objs =>
    left
    rw [evictLayers_of_some hresult] at hfrees
    obtain ⟨popped, hpoppedObjs, _, hall, _⟩ := popLayers_some layers _ hresult
    obtain rfl : objs = popped := hpoppedObjs
    intro key hkey
    obtain ⟨obj, hmem, hget⟩ := hall key hkey
    refine ⟨obj, hget, fun hvalid => ?_⟩
    have hat : ((popLayers layers [] { st with policy := policy }).2.batchedFree objs).objs obj =
        (st.objs obj).free := by
      rw [batchedFree, hpopped.objs]
      exact if_pos hmem
    obtain ⟨hpins, hheld⟩ := hfrees obj hvalid (by rw [hat]; rfl)
    rw [hat] at hpins
    exact ⟨hpins, (congrFun hpopped.held obj).symm.trans hheld⟩
  | none =>
    right
    rw [evictLayers_of_none hresult] at hunchanged
    obtain ⟨hhot, hpolicy, _⟩ := hunchanged rfl
    refine ⟨fun hlfu => ?_, ?_⟩
    · obtain ⟨hknown, hgone⟩ := hforgotten hlfu key rfl
      obtain ⟨freq, hfreq⟩ := Option.isSome_iff_exists.mp hknown
      have hkept := hpopped.forgets.freqs key freq (by rw [hpolicy]; exact hfreq)
      exact absurd (hgone.symm.trans hkept) (by simp)
    · cases layers with
      | nil => exact absurd hresult (by simp [popLayers])
      | cons first rest =>
        refine ⟨first, rest, rfl, ?_⟩
        cases hget : st.hotCache.get? first with
        | none => rfl
        | some obj =>
          have hconsistent : policy.Consistent := hforgets.consistent h.consistent
          have hfirst : (popLayers (first :: rest) [] { st with policy := policy }).2.hotCache ≠
              st.hotCache := popLayers_first hconsistent hget
          exact absurd hhot hfirst

theorem safe_evictBatch_iff (h : st.Counted) :
    SafeStep st (.evictBatch batchSize) ↔ ClearBatch st (.evictBatch batchSize) := by
  constructor
  · rintro ⟨hfrees, hunchanged⟩ key policy hcandidate
    change FreesUnused st (st.evictBatch batchSize).2 at hfrees
    change (st.evictBatch batchSize).1 = true → Unchanged st (st.evictBatch batchSize).2 at hunchanged
    rw [evictBatch, hcandidate] at hfrees hunchanged
    exact unused_of_safe h hcandidate hfrees hunchanged
  · intro hclear
    change FreesUnused st (st.evictBatch batchSize).2 ∧
      ((st.evictBatch batchSize).1 = true → Unchanged st (st.evictBatch batchSize).2)
    rw [evictBatch]
    split
    · exact ⟨fun obj hvalid hfreed => absurd (hvalid.symm.trans hfreed) (by simp),
        fun _ => ⟨rfl, rfl, fun _ => rfl⟩⟩
    · exact ⟨fun obj hvalid hfreed => absurd (hvalid.symm.trans hfreed) (by simp),
        fun hraised => absurd hraised Bool.false_ne_true⟩
    · rename_i key policy hcandidate
      have hforgets := (forgets_getEvictCandidates hcandidate).1
      rcases hclear key policy hcandidate with hunused | ⟨hkind, first, rest, hlayers, hmissing⟩
      · obtain ⟨hkept, hdone⟩ := keepsCount_evictLayers (counted_forgets h hforgets)
          (key.nodup_splitLayers batchSize) hunused
        refine ⟨hkept.freesUnused, fun hraised => ?_⟩
        rw [hdone] at hraised
        exact absurd hraised Bool.false_ne_true
      · rw [hlayers, evictLayers_of_missing hmissing rest policy]
        exact ⟨fun obj hvalid hfreed => absurd (hvalid.symm.trans hfreed) (by simp),
          fun _ => ⟨rfl, hforgets.same hkind, fun _ => rfl⟩⟩

theorem counted_evictBatch (h : st.Counted) (hclear : ClearBatch st (.evictBatch batchSize)) :
    (st.evictBatch batchSize).2.Counted := by
  rw [evictBatch]
  split
  · exact h
  · rename_i policy hnone
    exact counted_forgets h (forgets_getEvictCandidates hnone).1
  · rename_i key policy hcandidate
    have hforgets := (forgets_getEvictCandidates hcandidate).1
    rcases hclear key policy hcandidate with hunused | ⟨_, first, rest, hlayers, hmissing⟩
    · exact (keepsCount_evictLayers (counted_forgets h hforgets)
        (key.nodup_splitLayers batchSize) hunused).1.counted
    · rw [hlayers, evictLayers_of_missing hmissing rest policy]
      exact counted_forgets h hforgets

theorem keepsCount_step (h : st.Counted) (event : CPUEvent)
    (hevent : ∀ batchSize, event ≠ .evictBatch batchSize) :
    KeepsCount st (st.exec event) ∧ ((st.step event).1 = true → Unchanged st (st.exec event)) := by
  have hquiet : ∀ st', KeepsCount st st' → st' = (st.step event).2 → (st.step event).1 = false →
      KeepsCount st (st.exec event) ∧ ((st.step event).1 = true → Unchanged st (st.exec event)) := by
    rintro _ hkept rfl hdone
    exact ⟨hkept, fun hraised => absurd (hdone.symm.trans hraised) (by simp)⟩
  have hsame : ∀ st' : CPUState, st'.objs = st.objs → st'.hotCache = st.hotCache →
      st'.held = st.held → st'.nextObj = st.nextObj → st'.policy = st.policy → KeepsCount st st' := by
    intro st' hobjs hhot hheld hnext hpolicy
    refine keepsCount_of_objs h hobjs (fun obj => ?_) hnext (hpolicy ▸ h.consistent)
    rw [refs, hhot, hheld, refs]
  cases event with
  | allocate => exact hquiet _ (keepsCount_allocate h) rfl rfl
  | submitPutTask key obj =>
    refine hquiet _ ?_ rfl rfl
    change KeepsCount st (if obj < st.nextObj then st.submitPutTask key obj else st)
    split_ifs with hlt
    · exact keepsCount_submitPutTask h hlt
    · exact hsame st rfl rfl rfl rfl rfl
  | getBlocking key => exact hquiet _ (keepsCount_getBlocking h) rfl rfl
  | refCountDown obj =>
    refine hquiet _ ?_ rfl rfl
    change KeepsCount st (if 0 < st.held obj then st.refCountDown obj else st)
    split_ifs with hheld
    · exact keepsCount_refCountDown h hheld
    · exact hsame st rfl rfl rfl rfl rfl
  | contains key pin => exact hquiet _ (keepsCount_contains h pin) rfl rfl
  | pin key => exact hquiet _ (keepsCount_modifyKey h freesUnneeded_pin fun _ => rfl) rfl rfl
  | unpin key => exact hquiet _ (keepsCount_modifyKey h freesUnneeded_unpin refCount_unpin) rfl rfl
  | touchCache => exact hquiet _ (keepsCount_touchKeys _ h) rfl rfl
  | remove key => exact hquiet _ (keepsCount_remove h).1 rfl (keepsCount_remove h).2
  | queueEvict key =>
    refine hquiet _ ?_ rfl rfl
    change KeepsCount st (st.queueEvict key)
    rw [queueEvict]
    split_ifs
    · exact hsame _ rfl rfl rfl rfl rfl
    · exact hsame st rfl rfl rfl rfl rfl
  | evictOne =>
    obtain ⟨hkept, hraised⟩ := keepsCount_evictOne h
    refine ⟨hkept, fun hraises => ?_⟩
    change Unchanged st st.evictOne.2
    rw [hraised hraises]
    exact ⟨rfl, rfl, fun _ => rfl⟩
  | evictBatch batchSize => exact absurd rfl (hevent batchSize)
  | drain =>
    refine hquiet _ ?_ rfl rfl
    change KeepsCount st st.drain
    rw [drain]
    split <;> exact hsame _ rfl rfl rfl rfl rfl
  | send =>
    refine hquiet _ ?_ rfl rfl
    change KeepsCount st st.send
    rw [send]
    split_ifs <;> exact hsame _ rfl rfl rfl rfl rfl

theorem safeStep_of_ne (h : st.Counted) (event : CPUEvent)
    (hevent : ∀ batchSize, event ≠ .evictBatch batchSize) : SafeStep st event :=
  ⟨(keepsCount_step h event hevent).1.freesUnused, (keepsCount_step h event hevent).2⟩

theorem counted_start (kind : PolicyKind) : (start kind).Counted where
  counts _ h := absurd h Bool.false_ne_true
  fresh _ _ := rfl
  consistent := consistent_init kind

theorem safeStep_iff (h : st.Counted) (event : CPUEvent) :
    SafeStep st event ↔ ClearBatch st event := by
  cases event with
  | evictBatch batchSize => exact safe_evictBatch_iff h
  | _ => exact ⟨fun _ => trivial, fun _ => safeStep_of_ne h _ fun _ => by simp⟩

theorem counted_step (h : st.Counted) (event : CPUEvent) (hclear : ClearBatch st event) :
    (st.exec event).Counted := by
  cases event with
  | evictBatch batchSize => exact counted_evictBatch h hclear
  | _ => exact (keepsCount_step h _ fun _ => by simp).1.counted

theorem evictions_safe_iff (kind : PolicyKind) (events : List CPUEvent) :
    Along exec SafeStep (start kind) events ↔ Along exec ClearBatch (start kind) events :=
  along_iff_along (Q := fun _ _ => True) (I := Counted)
    (fun _ event h _ hclear => counted_step h event hclear)
    (fun _ event h _ => safeStep_iff h event) (counted_start kind)
    (along_of_forall (fun _ _ => trivial) _ _)

def layerKey (layerId : ℕ) : HotKey := .layer ⟨⟨['m'], 1, 0, 5, ['h', 'a', 'l', 'f'], []⟩, layerId⟩

def storeLayer (layerId : ℕ) : List CPUEvent :=
  [.allocate, .submitPutTask (layerKey layerId) layerId, .refCountDown layerId]

theorem not_evictions_safe_read :
    ¬ Along exec SafeStep (start .lru) (storeLayer 0 ++ storeLayer 1 ++
      [.getBlocking (layerKey 1), .evictBatch 2]) := by
  intro h
  obtain ⟨hfrees, _⟩ := ((along_append _ _ _).mp h).2.2.1
  exact absurd (hfrees 1 rfl rfl).2 (by decide)

end CPUState

end LMCache
