import LMCache.StorageBackend.DiskAccounting

namespace LMCache

open List

variable {K Λ X E : Type} [DecidableEq K]

namespace DiskState

variable {cfg : LocalDiskConfig K Λ} {st st' : DiskState K Λ X E} {key : K} {jobId : ℕ}
  {job : ReadJob K Λ X E} {task : DiskPutTask K Λ X E}

section Rebalanced

omit [DecidableEq K] in
theorem Rebalanced.of_get? [DecidableEq K] (hcurrent : st'.currentCacheSize = st.currentCacheSize)
    (htasks : st'.tasks = st.tasks) (hputTasks : st'.putTasks = st.putTasks)
    (hkind : st'.policy.kind = st.policy.kind) (hstored : st'.storedSize = st.storedSize)
    (hsub : ∀ key, st'.dict.contains key = true → st.dict.contains key = true)
    (htracks : ∀ key, st.policy.Tracks key → st'.policy.Tracks key) : Rebalanced st st' :=
  ⟨htasks, hputTasks, hkind, by rw [hcurrent, hstored], Nat.le_of_eq hstored, hsub,
    fun key _ => htracks key⟩

theorem contains_congr {V : Type} {d d' : Dict K V} (h : ∀ key, d'.get? key = d.get? key) (key : K) :
    d'.contains key = d.contains key := by rw [Dict.contains, Dict.contains, h]

theorem rebalanced_hit {policy : CachePolicy K} {dict : Dict K (DiskCacheMetadata Λ X)}
    (h : st.policy.updateOnHit key st.dict = some (policy, dict)) :
    Rebalanced st { st with policy := policy, dict := dict } := by
  have hhit := CachePolicy.hit_of_updateOnHit h
  exact .of_get? rfl rfl rfl hhit.kind (totalSize_perm hhit.values)
    (fun key' hkey' => (contains_congr hhit.get? key').symm.trans hkey') hhit.tracks

theorem totalSize_set {m m' : DiskCacheMetadata Λ X} (d : Dict K (DiskCacheMetadata Λ X))
    (hget : d.get? key = some m) (hsize : m'.size = m.size) :
    totalSize (d.set key m').values = totalSize d.values := by
  have hperm := totalSize_perm (d.values_set_perm key m')
  rw [hget, totalSize_cons, hsize] at hperm
  change totalSize (m :: (d.set key m').values) = _ at hperm
  rw [totalSize_cons] at hperm
  omega

theorem rebalanced_setPins (st : DiskState K Λ X E) (key : K)
    {f : DiskCacheMetadata Λ X → DiskCacheMetadata Λ X} (hsize : ∀ m, (f m).size = m.size) :
    Rebalanced st (st.setPins key f) := by
  rw [setPins]
  cases hget : st.dict.get? key with
  | none => exact .refl st
  | some m =>
    refine .of_get? rfl rfl rfl rfl (totalSize_set st.dict hget (hsize m)) ?_ fun _ h => h
    intro key' hkey'
    rcases (Dict.contains_set_iff _ _ _ _).mp hkey' with rfl | hold
    · exact contains_of_get? hget
    · exact hold

theorem rebalanced_setJob (st : DiskState K Λ X E) (jobId : ℕ) (job : ReadJob K Λ X E) :
    Rebalanced st (st.setJob jobId job) :=
  .of_get? rfl rfl rfl rfl rfl (fun _ h => h) fun _ h => h

theorem rebalanced_fail (st : DiskState K Λ X E) (jobId : ℕ) (job : ReadJob K Λ X E)
    (lockHeld : Bool) : Rebalanced st (st.fail jobId job lockHeld) :=
  .of_get? rfl rfl rfl rfl rfl (fun _ h => h) fun _ h => h

theorem rebalanced_finish (st : DiskState K Λ X E) (jobId : ℕ) (job : ReadJob K Λ X E) :
    Rebalanced st (st.finish jobId job) := by
  rw [finish]
  split_ifs
  · exact .of_get? rfl rfl rfl rfl rfl (fun _ h => h) fun _ h => h
  · exact rebalanced_setJob st jobId job

theorem rebalanced_getBlocking (cfg : LocalDiskConfig K Λ) (st : DiskState K Λ X E) (jobId : ℕ)
    (key : K) (memory : Option (ℕ → ℕ)) :
    Rebalanced st (st.getBlocking cfg jobId key memory) := by
  rw [getBlocking]
  cases st.dict.get? key with
  | none => exact .of_get? rfl rfl rfl rfl rfl (fun _ h => h) fun _ h => h
  | some m =>
    dsimp only
    cases hupdate : st.policy.updateOnHit key st.dict with
    | none => exact rebalanced_fail st jobId _ true
    | some updated =>
      have hhit := rebalanced_hit hupdate
      cases memory with
      | none => exact hhit.trans (rebalanced_fail _ jobId _ false)
      | some memory => exact hhit.trans (rebalanced_setJob _ jobId _)

theorem rebalanced_locate (cfg : LocalDiskConfig K Λ) (st : DiskState K Λ X E) (jobId : ℕ)
    (memory : Option (ℕ → ℕ)) : Rebalanced st (st.locate cfg jobId memory) := by
  rw [locate]
  cases st.jobs.get? jobId with
  | none => exact .refl st
  | some job =>
    dsimp only
    cases job.toLocate with
    | nil => exact .refl st
    | cons key keys =>
      dsimp only
      unfold locateKey
      cases st.dict.get? key with
      | none => exact rebalanced_fail st jobId job true
      | some m =>
        cases memory with
        | none => exact rebalanced_fail st jobId job true
        | some memory =>
          have hpins := rebalanced_setPins (f := DiskCacheMetadata.pin) st key fun _ => rfl
          dsimp only
          split
          · exact hpins.trans (rebalanced_fail _ jobId job true)
          · rename_i hupdate
            exact hpins.trans ((rebalanced_hit hupdate).trans (rebalanced_setJob _ jobId _))

theorem rebalanced_takePositions (st : DiskState K Λ X E) (jobId : ℕ) :
    Rebalanced st (st.takePositions jobId) := by
  rw [takePositions]
  cases st.headTarget jobId .read with
  | none => exact .refl st
  | some head =>
    dsimp only
    cases st.dict.get? head.2.1.key with
    | none => exact rebalanced_fail st jobId head.1 false
    | some entry =>
      dsimp only
      split_ifs
      · exact rebalanced_setJob st jobId _
      · exact rebalanced_finish st jobId _

theorem rebalanced_unpinLoaded (st : DiskState K Λ X E) (jobId : ℕ) :
    Rebalanced st (st.unpinLoaded jobId) := by
  rw [unpinLoaded]
  cases st.headTarget jobId .positioned with
  | none => exact .refl st
  | some head =>
    dsimp only
    split_ifs
    · have hpins := rebalanced_setPins (f := DiskCacheMetadata.unpin) st head.2.1.key fun _ => rfl
      exact hpins.trans (rebalanced_finish _ jobId _)
    · exact rebalanced_fail st jobId head.1 true

theorem rebalanced_erase (st : DiskState K Λ X E) (key : K)
    (hsize : ∀ m, st.dict.get? key = some m → m.size = 0) :
    Rebalanced st { st with dict := st.dict.erase key } := by
  refine .of_get? rfl rfl rfl rfl ?_ (fun _ h => ((Dict.contains_erase_iff _ _ _).mp h).1) fun _ h => h
  change totalSize (st.dict.erase key).values = totalSize st.dict.values
  cases hget : st.dict.get? key with
  | none =>
    have hperm := st.dict.values_erase_perm key
    rw [hget] at hperm
    exact totalSize_perm hperm
  | some m =>
    have herase := storedSize_erase st.dict hget
    rw [hsize m hget] at herase
    omega

theorem rebalanced_readFile (st : DiskState K Λ X E) (jobId : ℕ)
    (hclean : ∀ job target toLoad, st.headTarget jobId .allocated = some (job, target, toLoad) →
      st.files target.diskMeta.path = none → ∀ m, st.dict.get? target.key = some m → m.size = 0) :
    Rebalanced st (st.readFile jobId) := by
  rw [readFile]
  cases hhead : st.headTarget jobId .allocated with
  | none => exact .refl st
  | some head =>
    dsimp only
    cases hfile : st.files head.2.1.diskMeta.path with
    | none =>
      exact (rebalanced_erase st head.2.1.key (hclean _ _ _ hhead hfile)).trans
        (rebalanced_setJob _ jobId _)
    | some content => exact rebalanced_setJob st jobId _

theorem rebalanced_remove (st : DiskState K Λ X E) (key : K)
    (hsize : ∀ m, st.dict.get? key = some m → m.size = 0) : Rebalanced st (st.remove key) := by
  rw [remove]
  cases hget : st.dict.get? key with
  | none => exact .refl st
  | some m =>
    have hevict : Rebalanced st (st.evict key m).1 :=
      (rebalanced_erase st key hsize).trans (.of_get? rfl rfl rfl rfl rfl (fun _ h => h) fun _ h => h)
    dsimp only
    cases hresult : st.evict key m with
    | mk evicted found =>
      rw [hresult] at hevict
      cases found with
      | false => exact hevict.trans (.of_get? rfl rfl rfl rfl rfl (fun _ h => h) fun _ h => h)
      | true =>
        dsimp only
        cases hforce : evicted.policy.updateOnForceEvict key with
        | none => exact hevict.trans (.of_get? rfl rfl rfl rfl rfl (fun _ h => h) fun _ h => h)
        | some policy =>
          obtain ⟨hkind, htracks⟩ := CachePolicy.forceEvict_tracks hforce
          obtain rfl : evicted = (st.evict key m).1 := by rw [hresult]
          refine ⟨rfl, rfl, hkind, hevict.balance, hevict.stored_le, hevict.sub, ?_⟩
          intro key' hkey' htracks'
          refine htracks key' ?_ htracks'
          rcases hkey' with hstays | hnever
          · exact ((Dict.contains_erase_iff _ _ _).mp hstays).2
          · rintro rfl
            exact absurd (contains_of_get? hget) (by simp [hnever])

end Rebalanced

section Tasks

variable {tasks : List (DiskPutTask K Λ X E)}

omit [DecidableEq K] in
theorem filter_ne_of_nodup [DecidableEq K] (hnodup : (tasks.map DiskPutTask.key).Nodup)
    (hmem : task ∈ tasks) :
    tasks.Perm (task :: tasks.filter fun t => decide (t.key ≠ task.key)) := by
  induction tasks with
  | nil => exact absurd hmem not_mem_nil
  | cons head tasks ih =>
    obtain ⟨hnot, hrest⟩ := nodup_cons.mp hnodup
    rcases mem_cons.mp hmem with rfl | htail
    · have hkept : tasks.filter (fun t => decide (t.key ≠ task.key)) = tasks :=
        filter_eq_self.mpr fun t ht => decide_eq_true fun heq =>
          hnot (heq ▸ mem_map_of_mem ht)
      rw [filter_cons_of_neg (by simp), hkept]
    · have hne : head.key ≠ task.key := fun heq => hnot (heq ▸ mem_map_of_mem htail)
      rw [filter_cons_of_pos (by simpa using hne)]
      exact ((ih hrest htail).cons head).trans (.swap _ _ _)

variable {phase : PutPhase}

theorem taskOf_some (h : st.taskOf key phase = some task) :
    task ∈ st.tasks ∧ task.key = key ∧ task.phase = phase := by
  have hfound := find?_some h
  rw [decide_eq_true_eq] at hfound
  exact ⟨mem_of_find?_eq_some h, hfound.1, hfound.2⟩

structure Splits (st : DiskState K Λ X E) (task : DiskPutTask K Λ X E)
    (others : List (DiskPutTask K Λ X E)) : Prop where
  tasks : st.tasks.Perm (task :: others)
  dropped : (st.dropTask task.key).tasks = others
  phased : ∀ phase, (st.setPhase task.key phase).tasks.Perm ({ task with phase := phase } :: others)

theorem splits_of_nodup (hnodup : (st.tasks.map DiskPutTask.key).Nodup)
    (htask : st.taskOf key phase = some task) :
    task.key = key ∧ task.phase = phase ∧
      Splits st task (st.tasks.filter fun t => decide (t.key ≠ task.key)) := by
  obtain ⟨hmem, hkey, hphase⟩ := taskOf_some htask
  have hperm := filter_ne_of_nodup hnodup hmem
  refine ⟨hkey, hphase, hperm, rfl, fun phase' => ?_⟩
  have hmapped := hperm.map fun t : DiskPutTask K Λ X E =>
    if t.key = task.key then { t with phase := phase' } else t
  rw [map_cons, if_pos rfl] at hmapped
  have hothers : (st.tasks.filter fun t => decide (t.key ≠ task.key)).map (fun t =>
      if t.key = task.key then { t with phase := phase' } else t) =
        st.tasks.filter fun t => decide (t.key ≠ task.key) := by
    refine (map_congr_left fun t ht => ?_).trans (map_id _)
    exact if_neg (by simpa using (mem_filter.mp ht).2)
  rw [hothers] at hmapped
  exact hmapped

theorem Accounts.splits (h : st.Accounts cfg) (htask : st.taskOf key phase = some task) :
    task.key = key ∧ task.phase = phase ∧
      Splits st task (st.tasks.filter fun t => decide (t.key ≠ task.key)) :=
  splits_of_nodup h.nodup htask

omit [DecidableEq K] in
theorem pendingSize_perm (h : st.tasks.Perm tasks) :
    st.pendingSize =
      ((tasks.filter fun t => decide (t.phase ≠ .entered)).map DiskPutTask.size).sum :=
  ((h.filter _).map DiskPutTask.size).sum_eq

variable {others : List (DiskPutTask K Λ X E)}

theorem Accounts.retask (h : st.Accounts cfg) (hsplits : Splits st task others)
    (heads : List (DiskPutTask K Λ X E)) (htasks : st'.tasks.Perm (heads ++ others))
    (hlength : heads.length ≤ 1)
    (hheads : ∀ t ∈ heads, t.key = task.key ∧ (t.phase ≠ .entered → task.phase ≠ .entered))
    (haccounted : st'.Accounted cfg) (hregistered : ∀ t ∈ heads ++ others, t.key ∈ st'.putTasks)
    (hkind : st'.policy.kind = st.policy.kind)
    (htracks : ∀ key, st.policy.Tracks key → st'.policy.Tracks key)
    (hdict : ∀ key, st'.dict.contains key = true → st.dict.contains key = true ∨
      key = task.key ∧ task.phase ≠ .entered ∧ ∀ t ∈ heads, t.phase = .entered) :
    st'.Accounts cfg := by
  have hnodup := (hsplits.tasks.map DiskPutTask.key).nodup_iff.mp h.nodup
  obtain ⟨hnot, hothers⟩ := nodup_cons.mp hnodup
  have htask : task.phase ≠ .entered → task ∈ st.pendingTasks := fun hphase =>
    mem_filter.mpr ⟨hsplits.tasks.mem_iff.mpr mem_cons_self, by simpa using hphase⟩
  have hpending : ∀ t ∈ st'.pendingTasks, (t ∈ heads ∨ t ∈ others) ∧
      ∃ t₀ ∈ st.pendingTasks, t₀.key = t.key := by
    intro t ht
    obtain ⟨hmem, hphase⟩ := mem_filter.mp ht
    rw [decide_eq_true_eq] at hphase
    rcases mem_append.mp (htasks.mem_iff.mp hmem) with hhead | hother
    · obtain ⟨hkey, hmoved⟩ := hheads t hhead
      exact ⟨.inl hhead, task, htask (hmoved hphase), hkey.symm⟩
    · refine ⟨.inr hother, t, mem_filter.mpr ⟨?_, by simpa using hphase⟩, rfl⟩
      exact hsplits.tasks.mem_iff.mpr (mem_cons_of_mem _ hother)
  refine ⟨haccounted, ?_, ?_, ?_, ?_, ?_⟩
  · refine (htasks.map DiskPutTask.key).nodup_iff.mpr ?_
    match heads, hlength, hheads with
    | [], _, _ => exact hothers
    | [t], _, hheads =>
      rw [singleton_append, map_cons, (hheads t mem_cons_self).1]
      exact hnodup
  · exact fun t ht => hregistered t (htasks.mem_iff.mp ht)
  · intro key hkey
    rcases hdict key hkey with hold | ⟨rfl, hphase, _⟩
    · exact htracks key (h.stored key hold)
    · exact htracks _ (h.pending task (htask hphase))
  · intro t ht
    obtain ⟨_, t₀, ht₀, hkey⟩ := hpending t ht
    rw [← hkey]
    exact htracks _ (h.pending t₀ ht₀)
  · intro hlfu t ht
    obtain ⟨hmem, t₀, ht₀, hkey⟩ := hpending t ht
    rw [← Bool.not_eq_true]
    intro hcontains
    rcases hdict t.key hcontains with hold | ⟨heq, _, hentered⟩
    · rw [← hkey, h.fresh (hkind ▸ hlfu) t₀ ht₀] at hold
      exact absurd hold Bool.false_ne_true
    · rcases hmem with hhead | hother
      · exact absurd (hentered t hhead) (by simpa using (mem_filter.mp ht).2)
      · exact hnot (heq ▸ mem_map_of_mem hother)

theorem pendingSize_splits {others heads : List (DiskPutTask K Λ X E)} (hsplits : Splits st task others)
    (htasks : st'.tasks.Perm (heads ++ others)) (hphase : task.phase ≠ .entered)
    (hentered : ∀ t ∈ heads, t.phase = .entered) :
    task.size + st'.pendingSize = st.pendingSize := by
  rw [pendingSize_perm hsplits.tasks, pendingSize_perm htasks, filter_append,
    filter_eq_nil_iff.mpr fun t ht => by simp [hentered t ht], nil_append,
    filter_cons_of_pos (by simpa using hphase), map_cons, sum_cons]

theorem Accounts.writeFile (h : st.Accounts cfg) (key : K) : (st.writeFile cfg key).Accounts cfg := by
  rw [DiskState.writeFile]
  cases htask : st.taskOf key .queued with
  | none => exact h
  | some task =>
    obtain ⟨rfl, hqueued, hsplits⟩ := h.splits htask
    have hphased : ((st.setFile (cfg.keyToPath task.key) (some task.memoryObj.bytes)).setPhase
        task.key .written).tasks.Perm _ := hsplits.phased .written
    have hpending : st.pendingSize = ((st.setFile (cfg.keyToPath task.key)
        (some task.memoryObj.bytes)).setPhase task.key .written).pendingSize := by
      rw [pendingSize_perm hsplits.tasks, pendingSize_perm hphased, filter_cons_of_pos,
        filter_cons_of_pos]
      · rfl
      · rfl
      · simp [hqueued]
    refine h.retask hsplits [{ task with phase := .written }] hphased (Nat.le_refl 1)
      ?_ ?_ ?_ rfl (fun _ h => h) fun _ h => .inl h
    · intro t ht
      obtain rfl := mem_singleton.mp ht
      exact ⟨rfl, fun _ => by simp [hqueued]⟩
    · refine ⟨?_, h.accounted.nonneg, h.accounted.le_max⟩
      rw [← hpending]
      exact h.accounted.exact
    · intro t ht
      rcases mem_append.mp ht with hhead | hother
      · obtain rfl := mem_singleton.mp hhead
        exact h.registered task (hsplits.tasks.mem_iff.mpr mem_cons_self)
      · exact h.registered t (hsplits.tasks.mem_iff.mpr (mem_cons_of_mem _ hother))

theorem Accounts.registered_others (h : st.Accounts cfg) (hsplits : Splits st task others)
    (t : DiskPutTask K Λ X E) (ht : t ∈ others) :
    t.key ∈ st.putTasks :=
  h.registered t (hsplits.tasks.mem_iff.mpr (mem_cons_of_mem _ ht))

theorem Accounts.registered_entered (h : st.Accounts cfg) (hsplits : Splits st task others)
    (t : DiskPutTask K Λ X E) (ht : t ∈ [{ task with phase := .entered }] ++ others) :
    t.key ∈ st.putTasks := by
  rcases mem_append.mp ht with hhead | hother
  · obtain rfl := mem_singleton.mp hhead
    exact h.registered task (hsplits.tasks.mem_iff.mpr mem_cons_self)
  · exact h.registered_others hsplits t hother

theorem Accounts.enter (h : st.Accounts cfg) {others : List (DiskPutTask K Λ X E)}
    (hsplits : Splits st task others) (hphase : task.phase ≠ .entered)
    (htasks : st'.tasks.Perm ([{ task with phase := .entered }] ++ others))
    (hputs : st'.putTasks = st.putTasks) (hsize : st'.currentCacheSize = st.currentCacheSize)
    (hstored : st'.storedSize = task.size + st.storedSize)
    (hkind : st'.policy.kind = st.policy.kind)
    (htracks : ∀ key, st.policy.Tracks key → st'.policy.Tracks key)
    (hdict : ∀ key, st'.dict.contains key = true → st.dict.contains key = true ∨ key = task.key) :
    st'.Accounts cfg := by
  have hhead : ∀ t ∈ [{ task with phase := PutPhase.entered }], t.key = task.key ∧
      t.phase = .entered := fun t ht => by
    obtain rfl := mem_singleton.mp ht
    exact ⟨rfl, rfl⟩
  have hexact := h.accounted.exact
  have hpending := pendingSize_splits hsplits htasks hphase fun t ht => (hhead t ht).2
  refine h.retask hsplits [{ task with phase := .entered }] htasks (Nat.le_refl 1)
    (fun t ht => ⟨(hhead t ht).1, fun _ => hphase⟩) ⟨?_, ?_, ?_⟩ (fun t ht => ?_) hkind htracks
    fun key hkey => (hdict key hkey).imp_right fun heq => ⟨heq, hphase, fun t ht => (hhead t ht).2⟩
  · rw [hsize]
    omega
  · rw [hsize]
    exact h.accounted.nonneg
  · rw [hsize]
    exact h.accounted.le_max
  · rw [hputs]
    exact h.registered_entered hsplits t ht

theorem Accounts.insertKey (h : st.Accounts cfg) (key : K)
    (hclean : ∀ task, st.taskOf key .written = some task → st.dict.contains key = true →
      task.size = 0) : (st.insertKey cfg key).Accounts cfg := by
  rw [DiskState.insertKey]
  cases htask : st.taskOf key .written with
  | none => exact h
  | some task =>
    obtain ⟨rfl, hwritten, hsplits⟩ := h.splits htask
    have hphase : task.phase ≠ .entered := by simp [hwritten]
    dsimp only
    split_ifs with hstored
    · have hzero := hclean task htask hstored
      cases hupdate : st.policy.updateOnHit task.key st.dict with
      | none =>
        dsimp only
        have hdropped : (st.dropTask task.key).tasks.Perm ([] ++ _) := .of_eq hsplits.dropped
        have hexact := h.accounted.exact
        have hpending := pendingSize_splits hsplits hdropped hphase fun _ h => absurd h not_mem_nil
        refine h.retask hsplits [] hdropped (Nat.zero_le 1) (fun _ h => absurd h not_mem_nil)
          ⟨?_, h.accounted.nonneg, h.accounted.le_max⟩ (fun t ht => ?_) rfl (fun _ h => h)
          fun _ h => .inl h
        · change st.currentCacheSize = (st.storedSize : ℤ) + _
          omega
        · exact h.registered_others hsplits t ht
      | some updated =>
        obtain ⟨policy, dict⟩ := updated
        dsimp only
        have hhit := CachePolicy.hit_of_updateOnHit hupdate
        refine h.enter hsplits hphase (hsplits.phased .entered) rfl rfl ?_ hhit.kind hhit.tracks
          fun key' hkey' => .inl ((contains_congr hhit.get? key').symm.trans hkey')
        rw [hzero, Nat.zero_add]
        exact totalSize_perm hhit.values
    · refine h.enter hsplits hphase (hsplits.phased .entered) rfl rfl ?_ rfl (fun _ h => h)
        fun key' hkey' => ((Dict.contains_set_iff _ _ _ _).mp hkey').symm
      have hperm := totalSize_perm (st.dict.values_set_perm task.key ⟨cfg.keyToPath task.key,
        task.size, task.memoryObj.layout, task.memoryObj.cachedPositions, 0⟩)
      have hnone : st.dict.get? task.key = none := by
        rw [← Option.not_isSome_iff_eq_none]
        exact hstored
      rw [hnone, totalSize_cons] at hperm
      exact hperm

theorem Accounts.removePutTask (h : st.Accounts cfg) (key : K) :
    (st.removePutTask key).Accounts cfg := by
  rw [DiskState.removePutTask]
  cases htask : st.taskOf key .entered with
  | none => exact h
  | some task =>
    obtain ⟨rfl, hentered, hsplits⟩ := h.splits htask
    have hdropped : ({ st with putTasks := st.putTasks.erase task.key }.dropTask
        task.key).tasks.Perm ([] ++ _) := .of_eq hsplits.dropped
    have hpending : ({ st with putTasks := st.putTasks.erase task.key }.dropTask
        task.key).pendingSize = st.pendingSize := by
      rw [pendingSize_perm hsplits.tasks, pendingSize_perm hdropped, nil_append,
        filter_cons_of_neg (by simp [hentered])]
    refine h.retask hsplits [] hdropped (Nat.zero_le 1) (fun _ h => absurd h not_mem_nil)
      ⟨?_, h.accounted.nonneg, h.accounted.le_max⟩ (fun t ht => ?_) rfl (fun _ h => h)
      fun _ h => .inl h
    · rw [hpending]
      exact h.accounted.exact
    · refine (mem_erase_of_ne ?_).mpr (h.registered_others hsplits t ht)
      simpa using (mem_filter.mp ht).2

end Tasks

end DiskState

end LMCache
