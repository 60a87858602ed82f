import LMCache.StorageBackend.LocalCPU

namespace LMCache

namespace MemObj

variable {obj : MemObj}

structure FreesUnneeded (f : MemObj → MemObj) : Prop where
  back : ∀ obj, (f obj).valid = true → obj.valid = true
  freed : ∀ obj, obj.valid = true → (f obj).valid = false → (f obj).refCount = 0 ∧ (f obj).pinCount = 0

theorem freesUnneeded_refCountUp : FreesUnneeded refCountUp :=
  ⟨fun _ h => h, fun _ h h' => absurd (h.symm.trans h') (by simp)⟩

theorem freesUnneeded_pin : FreesUnneeded pin :=
  ⟨fun _ h => h, fun _ h h' => absurd (h.symm.trans h') (by simp)⟩

theorem refCount_refCountDown (obj : MemObj) : obj.refCountDown.refCount = obj.refCount - 1 := by
  rw [refCountDown]
  dsimp only
  split_ifs <;> rfl

theorem freesUnneeded_refCountDown : FreesUnneeded refCountDown where
  back obj h := by
    rw [refCountDown] at h
    dsimp only at h
    split_ifs at h
    · exact absurd h (by simp [free])
    · exact h
  freed obj h h' := by
    rw [refCountDown] at h' ⊢
    dsimp only at h' ⊢
    split_ifs at h' ⊢ with hzero
    · exact hzero
    · exact absurd (h.symm.trans h') (by simp)

theorem refCount_unpin (obj : MemObj) : obj.unpin.refCount = obj.refCount := by
  rw [unpin]
  dsimp only
  split_ifs <;> rfl

theorem freesUnneeded_unpin : FreesUnneeded unpin where
  back obj h := by
    rw [unpin] at h
    dsimp only at h
    split_ifs at h
    · exact absurd h (by simp [free])
    · exact h
  freed obj h h' := by
    rw [unpin] at h' ⊢
    dsimp only at h' ⊢
    split_ifs at h' ⊢ with hzero
    · exact ⟨hzero.2, hzero.1⟩
    · exact absurd (h.symm.trans h') (by simp)

end MemObj

namespace CPUState

open MemObj

variable {st st' : CPUState} {key : HotKey} {obj : ℕ}

def refs (st : CPUState) (obj : ℕ) : ℕ := st.hotCache.values.count obj + st.held obj

structure Counted (st : CPUState) : Prop where
  counts : ∀ obj, (st.objs obj).valid = true → (st.objs obj).refCount = st.refs obj
  fresh : ∀ obj, st.nextObj ≤ obj → st.refs obj = 0
  consistent : st.policy.Consistent

def FreesUnused (st st' : CPUState) : Prop :=
  ∀ obj, (st.objs obj).valid = true → (st'.objs obj).valid = false →
    (st'.objs obj).pinCount = 0 ∧ st'.held obj = 0

structure KeepsCount (st st' : CPUState) : Prop where
  counted : st'.Counted
  freesUnused : FreesUnused st st'

theorem keepsCount_of_objs (h : st.Counted) (hobjs : st'.objs = st.objs)
    (hrefs : ∀ obj, st'.refs obj = st.refs obj) (hnext : st'.nextObj = st.nextObj)
    (hconsistent : st'.policy.Consistent) : KeepsCount st st' := by
  refine ⟨⟨fun obj hvalid => ?_, fun obj hle => ?_, hconsistent⟩, fun obj hvalid hfreed => ?_⟩
  · rw [hobjs] at hvalid ⊢
    exact (h.counts obj hvalid).trans (hrefs obj).symm
  · exact (hrefs obj).trans (h.fresh obj (hnext ▸ hle))
  · rw [hobjs] at hfreed
    exact absurd (hvalid.symm.trans hfreed) (by simp)

variable {f : MemObj → MemObj}

theorem keepsCount_modify (h : st.Counted) (hf : FreesUnneeded f)
    (hobjs : st'.objs = (st.modify obj f).objs) (hothers : ∀ i, i ≠ obj → st'.refs i = st.refs i)
    (hcount : (st.objs obj).valid = true → (f (st.objs obj)).refCount = st'.refs obj)
    (hlt : obj < st.nextObj) (hnext : st'.nextObj = st.nextObj)
    (hconsistent : st'.policy.Consistent) : KeepsCount st st' := by
  have hat : ∀ i, st'.objs i = if i = obj then f (st.objs i) else st.objs i := by
    intro i
    rw [hobjs]
    rfl
  have hcounts : ∀ i, (st.objs i).valid = true → (st'.objs i).refCount = st'.refs i := by
    intro i hvalid
    rw [hat]
    split_ifs with heq
    · exact heq ▸ hcount (heq ▸ hvalid)
    · exact (h.counts i hvalid).trans (hothers i heq).symm
  refine ⟨⟨fun i hvalid => hcounts i ?_, fun i hle => ?_, hconsistent⟩, fun i hvalid hfreed => ?_⟩
  · rw [hat] at hvalid
    split_ifs at hvalid
    · exact hf.back _ hvalid
    · exact hvalid
  · rw [hnext] at hle
    exact (hothers i (by omega)).trans (h.fresh i hle)
  · have hcount' := hcounts i hvalid
    rw [hat] at hfreed hcount' ⊢
    split_ifs at hfreed hcount' ⊢
    · obtain ⟨hzero, hpins⟩ := hf.freed _ hvalid hfreed
      rw [hzero, refs] at hcount'
      exact ⟨hpins, by omega⟩
    · exact absurd (hvalid.symm.trans hfreed) (by simp)

theorem Counted.lt_nextObj (h : st.Counted) (href : 0 < st.refs obj) : obj < st.nextObj := by
  by_contra hle
  have hzero := h.fresh obj (by omega)
  omega

theorem count_pos_of_get? (hget : st.hotCache.get? key = some obj) :
    0 < st.hotCache.values.count obj :=
  List.count_pos_iff.mpr ((Dict.mem_values_iff _ _).mpr ⟨key, hget⟩)

theorem Counted.lt_of_get? (h : st.Counted) (hget : st.hotCache.get? key = some obj) :
    obj < st.nextObj := by
  refine h.lt_nextObj ?_
  have hpos := count_pos_of_get? hget
  rw [refs]
  omega

theorem count_erase (hget : st.hotCache.get? key = some obj) (i : ℕ) :
    st.hotCache.values.count i =
      (st.hotCache.erase key).values.count i + if i = obj then 1 else 0 := by
  have hperm := st.hotCache.values_erase_perm key
  rw [hget] at hperm
  have hcount := hperm.count_eq i
  rw [Option.toList_some, List.singleton_append, List.count_cons] at hcount
  rw [← hcount]
  congr 1
  exact if_congr (by rw [beq_iff_eq, eq_comm]) rfl rfl

theorem count_set (hget : st.hotCache.get? key = none) (i : ℕ) :
    (st.hotCache.set key obj).values.count i =
      st.hotCache.values.count i + if i = obj then 1 else 0 := by
  have hperm := st.hotCache.values_set_perm key obj
  rw [hget] at hperm
  have hcount := hperm.count_eq i
  rw [Option.toList_none, List.nil_append, List.count_cons] at hcount
  rw [hcount]
  congr 1
  exact if_congr (by rw [beq_iff_eq, eq_comm]) rfl rfl

theorem keepsCount_allocate (h : st.Counted) : KeepsCount st st.allocate := by
  have hnew : st.refs st.nextObj = 0 := h.fresh st.nextObj (Nat.le_refl _)
  have hat : ∀ i, st.allocate.objs i = if i = st.nextObj then ⟨true, 1, 0⟩ else st.objs i :=
    fun _ => rfl
  have hheld : ∀ i, st.allocate.held i = if i = st.nextObj then 1 else st.held i := fun _ => rfl
  have hhot : st.allocate.hotCache = st.hotCache := rfl
  refine ⟨⟨fun i hvalid => ?_, fun i hle => ?_, h.consistent⟩, fun i hvalid hfreed => ?_⟩
  · rw [hat] at hvalid ⊢
    rw [refs, hheld, hhot]
    split_ifs at hvalid ⊢ with heq
    · rw [refs] at hnew
      rw [heq]
      dsimp only
      omega
    · exact h.counts i hvalid
  · change st.nextObj + 1 ≤ i at hle
    rw [refs, hheld, hhot, if_neg (by omega)]
    exact h.fresh i (by omega)
  · rw [hat] at hfreed
    split_ifs at hfreed
    exact absurd (hvalid.symm.trans hfreed) (by simp)

theorem keepsCount_submitPutTask (h : st.Counted) (hlt : obj < st.nextObj) :
    KeepsCount st (st.submitPutTask key obj) := by
  rw [submitPutTask]
  split_ifs with hstored
  · exact keepsCount_of_objs h rfl (fun _ => rfl) rfl h.consistent
  · have hget : st.hotCache.get? key = none := by
      rw [Dict.contains, Bool.not_eq_true, Option.isSome_eq_false_iff] at hstored
      simpa using hstored
    refine keepsCount_modify h freesUnneeded_refCountUp rfl (fun i hne => ?_) (fun hvalid => ?_) hlt
      rfl (h.consistent.updateOnPut key)
    · change (st.hotCache.set key obj).values.count i + st.held i = _
      rw [count_set hget, if_neg hne]
      rfl
    · change (st.objs obj).refCount + 1 = (st.hotCache.set key obj).values.count obj + st.held obj
      rw [count_set hget, if_pos rfl, h.counts obj hvalid, refs]
      omega

theorem keepsCount_getBlocking (h : st.Counted) : KeepsCount st (st.getBlocking key) := by
  rw [getBlocking]
  cases hget : st.hotCache.get? key with
  | none => exact keepsCount_of_objs h rfl (fun _ => rfl) rfl h.consistent
  | some obj =>
    refine keepsCount_modify h freesUnneeded_refCountUp rfl (fun i hne => ?_) (fun hvalid => ?_)
      (h.lt_of_get? hget) rfl h.consistent
    · change st.hotCache.values.count i + (if i = obj then _ else st.held i) = _
      rw [if_neg hne]
      rfl
    · change (st.objs obj).refCount + 1 = st.hotCache.values.count obj +
        (if obj = obj then st.held obj + 1 else st.held obj)
      rw [if_pos rfl, h.counts obj hvalid, refs]
      omega

theorem keepsCount_refCountDown (h : st.Counted) (hheld : 0 < st.held obj) :
    KeepsCount st (st.refCountDown obj) := by
  have hlt : obj < st.nextObj := h.lt_nextObj (by rw [refs]; omega)
  refine keepsCount_modify h freesUnneeded_refCountDown rfl (fun i hne => ?_) (fun hvalid => ?_) hlt
    rfl h.consistent
  · change st.hotCache.values.count i + (if i = obj then _ else st.held i) = _
    rw [if_neg hne]
    rfl
  · change _ = st.hotCache.values.count obj + (if obj = obj then st.held obj - 1 else st.held obj)
    rw [if_pos rfl, refCount_refCountDown, h.counts obj hvalid, refs]
    omega

theorem keepsCount_modifyKey (h : st.Counted) (hf : FreesUnneeded f)
    (hcount : ∀ obj, (f obj).refCount = obj.refCount) : KeepsCount st (st.modifyKey key f) := by
  rw [modifyKey]
  cases hget : st.hotCache.get? key with
  | none => exact keepsCount_of_objs h rfl (fun _ => rfl) rfl h.consistent
  | some obj =>
    exact keepsCount_modify h hf rfl (fun _ _ => rfl)
      (fun hvalid => (hcount _).trans (h.counts obj hvalid)) (h.lt_of_get? hget) rfl h.consistent

theorem KeepsCount.congr_left {st'' : CPUState} (h : KeepsCount st st'') (hobjs : st.objs = st'.objs) :
    KeepsCount st' st'' := ⟨h.counted, fun obj hvalid => h.freesUnused obj (hobjs ▸ hvalid)⟩

theorem keepsCount_contains (h : st.Counted) (pin : Bool) :
    KeepsCount st (st.contains key pin) := by
  rw [contains]
  split_ifs
  · have hkeys : Counted { st with keysInRequest := st.keysInRequest ++ [key] } :=
      ⟨h.counts, h.fresh, h.consistent⟩
    exact (keepsCount_modifyKey hkeys freesUnneeded_pin fun _ => rfl).congr_left rfl
  · exact keepsCount_of_objs h rfl (fun _ => rfl) rfl h.consistent

theorem keepsCount_touchKeys (keys : List HotKey) (h : st.Counted) :
    KeepsCount st (touchKeys keys st) := by
  induction keys generalizing st with
  | nil => exact keepsCount_of_objs h rfl (fun _ => rfl) rfl h.consistent
  | cons key keys ih =>
    rw [touchKeys]
    cases hupdate : st.policy.updateOnHit key st.hotCache with
    | none => exact keepsCount_of_objs h rfl (fun _ => rfl) rfl h.consistent
    | some updated =>
      obtain ⟨policy, hotCache⟩ := updated
      have hhit := CachePolicy.hit_of_updateOnHit hupdate
      have hrefs : ∀ obj, refs { st with policy := policy, hotCache := hotCache } obj = st.refs obj :=
        fun obj => congrArg (· + st.held obj) (hhit.values.count_eq obj)
      have hkept : KeepsCount st { st with policy := policy, hotCache := hotCache } :=
        keepsCount_of_objs h rfl hrefs rfl (h.consistent.updateOnHit hupdate)
      exact (ih hkept.counted).congr_left rfl

theorem keepsCount_pop (h : st.Counted) (hget : st.hotCache.get? key = some obj)
    (hobjs : st'.objs = (st.pop key obj).objs) (hhot : st'.hotCache = (st.pop key obj).hotCache)
    (hheld : st'.held = st.held) (hnext : st'.nextObj = st.nextObj)
    (hconsistent : st'.policy.Consistent) : KeepsCount st st' := by
  have hrefs : ∀ i, st.refs i = st'.refs i + if i = obj then 1 else 0 := by
    intro i
    rw [refs, refs, count_erase hget, hheld, hhot]
    change _ = (st.hotCache.erase key).values.count i + st.held i + _
    omega
  refine keepsCount_modify h freesUnneeded_refCountDown hobjs (fun i hne => ?_) (fun hvalid => ?_)
    (h.lt_of_get? hget) hnext hconsistent
  · rw [hrefs, if_neg hne]
    rfl
  · rw [refCount_refCountDown, h.counts obj hvalid, hrefs, if_pos rfl]
    omega

theorem keepsCount_remove (h : st.Counted) :
    KeepsCount st (st.remove key).2 ∧ (st.remove key).1 = false := by
  rw [remove]
  cases hget : st.hotCache.get? key with
  | none => exact ⟨keepsCount_of_objs h rfl (fun _ => rfl) rfl h.consistent, rfl⟩
  | some obj =>
    obtain ⟨policy, hevict⟩ := h.consistent.isSome_updateOnForceEvict key
    dsimp only
    rw [hevict]
    refine ⟨keepsCount_pop h hget rfl rfl rfl rfl ?_, rfl⟩
    exact (CachePolicy.forgets_updateOnForceEvict hevict).consistent h.consistent

theorem keepsCount_evictKey (h : st.Counted) : KeepsCount st (st.evictKey key) := by
  rw [evictKey]
  cases hget : st.hotCache.get? key with
  | none => exact keepsCount_of_objs h rfl (fun _ => rfl) rfl h.consistent
  | some obj => exact keepsCount_pop h hget rfl rfl rfl rfl h.consistent

theorem counted_forgets (h : st.Counted) {policy : CachePolicy HotKey}
    (hforgets : CachePolicy.Forgets st.policy policy) : Counted { st with policy := policy } :=
  ⟨h.counts, h.fresh, hforgets.consistent h.consistent⟩

theorem keepsCount_evictOne (h : st.Counted) :
    KeepsCount st st.evictOne.2 ∧ (st.evictOne.1 = true → st.evictOne.2 = st) := by
  rw [evictOne]
  split
  · exact ⟨keepsCount_of_objs h rfl (fun _ => rfl) rfl h.consistent, fun _ => rfl⟩
  · rename_i policy hnone
    have hforgets := (CachePolicy.forgets_getEvictCandidates hnone).1
    exact ⟨keepsCount_of_objs h rfl (fun _ => rfl) rfl (hforgets.consistent h.consistent),
      fun hraised => absurd hraised Bool.false_ne_true⟩
  · rename_i key policy hsome
    have hforgets := (CachePolicy.forgets_getEvictCandidates hsome).1
    exact ⟨(keepsCount_evictKey (counted_forgets h hforgets)).congr_left rfl,
      fun hraised => absurd hraised Bool.false_ne_true⟩

end CPUState

end LMCache
