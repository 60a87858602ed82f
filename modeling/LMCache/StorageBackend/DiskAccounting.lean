import LMCache.StorageBackend.LocalDisk
import LMCache.Foundations.Execution

namespace LMCache

open CachePolicy

variable {K Λ X E : Type} [DecidableEq K]

def totalSize (entries : List (DiskCacheMetadata Λ X)) : ℕ :=
  (entries.map DiskCacheMetadata.size).sum

theorem totalSize_perm {entries entries' : List (DiskCacheMetadata Λ X)}
    (h : entries.Perm entries') : totalSize entries = totalSize entries' :=
  (h.map DiskCacheMetadata.size).sum_eq

theorem totalSize_cons (m : DiskCacheMetadata Λ X) (entries : List (DiskCacheMetadata Λ X)) :
    totalSize (m :: entries) = m.size + totalSize entries := by
  rw [totalSize, totalSize, List.map_cons, List.sum_cons]

def pinnedEntries (entries : List (DiskCacheMetadata Λ X)) : List (DiskCacheMetadata Λ X) :=
  entries.filter fun m => !m.canEvict

theorem pinnedEntries_cons_evictable {m : DiskCacheMetadata Λ X} (h : m.canEvict = true)
    (entries : List (DiskCacheMetadata Λ X)) :
    pinnedEntries (m :: entries) = pinnedEntries entries :=
  List.filter_cons_of_neg (by simp [h])

namespace DiskState

variable {cfg : LocalDiskConfig K Λ} {st st' st'' : DiskState K Λ X E} {key : K} {size : ℕ}

def storedSize (st : DiskState K Λ X E) : ℕ := totalSize st.dict.values

def pinnedSize (st : DiskState K Λ X E) : ℕ := totalSize (pinnedEntries st.dict.values)

def pendingTasks (st : DiskState K Λ X E) : List (DiskPutTask K Λ X E) :=
  st.tasks.filter fun task => decide (task.phase ≠ .entered)

def pendingSize (st : DiskState K Λ X E) : ℕ := (st.pendingTasks.map DiskPutTask.size).sum

structure Accounted (cfg : LocalDiskConfig K Λ) (st : DiskState K Λ X E) : Prop where
  exact : st.currentCacheSize = st.storedSize + st.pendingSize
  nonneg : 0 ≤ st.currentCacheSize
  le_max : st.currentCacheSize ≤ cfg.maxCacheSize

def NoRoom (cfg : LocalDiskConfig K Λ) (st : DiskState K Λ X E) (size : ℕ) : Prop :=
  cfg.maxCacheSize < st.pinnedSize + st.pendingSize + size

variable {m : DiskCacheMetadata Λ X} (d : Dict K (DiskCacheMetadata Λ X))

theorem storedSize_erase (hget : d.get? key = some m) :
    m.size + totalSize (d.erase key).values = totalSize d.values := by
  have hperm := d.values_erase_perm key
  rw [hget] at hperm
  rw [← totalSize_perm hperm, ← totalSize_cons]
  rfl

theorem pinnedSize_erase (hget : d.get? key = some m) (hevict : m.canEvict = true) :
    totalSize (pinnedEntries (d.erase key).values) = totalSize (pinnedEntries d.values) := by
  have hperm := d.values_erase_perm key
  rw [hget] at hperm
  have hpinned : (pinnedEntries (m :: (d.erase key).values)).Perm (pinnedEntries d.values) :=
    hperm.filter _
  rw [pinnedEntries_cons_evictable hevict] at hpinned
  exact totalSize_perm hpinned

theorem contains_of_get? {V : Type} {d : Dict K V} {v : V} (h : d.get? key = some v) :
    d.contains key = true := by rw [Dict.contains, h]; rfl

structure Rebalanced (st st' : DiskState K Λ X E) : Prop where
  tasks : st'.tasks = st.tasks
  putTasks : st'.putTasks = st.putTasks
  kind : st'.policy.kind = st.policy.kind
  balance : st'.currentCacheSize - st'.storedSize = st.currentCacheSize - st.storedSize
  stored_le : st'.storedSize ≤ st.storedSize
  sub : ∀ key, st'.dict.contains key = true → st.dict.contains key = true
  tracks : ∀ key, (st'.dict.contains key = true ∨ st.dict.contains key = false) →
    st.policy.Tracks key → st'.policy.Tracks key

theorem Rebalanced.refl (st : DiskState K Λ X E) : Rebalanced st st :=
  ⟨rfl, rfl, rfl, rfl, Nat.le_refl _, fun _ h => h, fun _ _ h => h⟩

theorem Rebalanced.trans (h : Rebalanced st st') (h' : Rebalanced st' st'') :
    Rebalanced st st'' where
  tasks := h'.tasks.trans h.tasks
  putTasks := h'.putTasks.trans h.putTasks
  kind := h'.kind.trans h.kind
  balance := h'.balance.trans h.balance
  stored_le := Nat.le_trans h'.stored_le h.stored_le
  sub key hkey := h.sub key (h'.sub key hkey)
  tracks key hkey htracks := by
    rcases hkey with hstays | hnever
    · exact h'.tracks key (.inl hstays) (h.tracks key (.inl (h'.sub key hstays)) htracks)
    · have hnever' : st'.dict.contains key = false := by
        rw [← Bool.not_eq_true]
        exact fun hcontains => absurd (h.sub key hcontains) (by simp [hnever])
      exact h'.tracks key (.inr hnever') (h.tracks key (.inr hnever) htracks)

structure Evicted (st st' : DiskState K Λ X E) : Prop extends Rebalanced st st' where
  puts : st'.puts = st.puts
  pinned : st'.pinnedSize = st.pinnedSize

theorem Evicted.refl (st : DiskState K Λ X E) : Evicted st st := ⟨.refl st, rfl, rfl⟩

theorem Evicted.trans (h : Evicted st st') (h' : Evicted st' st'') : Evicted st st'' :=
  ⟨h.toRebalanced.trans h'.toRebalanced, h'.puts.trans h.puts, h'.pinned.trans h.pinned⟩

theorem evicted_evict {policy : CachePolicy K}
    (hcandidate : CachePolicy.Candidate st.policy policy DiskCacheMetadata.canEvict st.dict key)
    (hget : st.dict.get? key = some m) :
    Evicted st ({ st with
      policy := policy
      currentCacheSize := st.currentCacheSize - m.size }.evict key m).1 := by
  obtain ⟨m', hget', hevict⟩ := hcandidate.stored
  rw [hget] at hget'
  obtain rfl := Option.some.inj hget'
  have hsize := storedSize_erase st.dict hget
  refine ⟨⟨rfl, rfl, hcandidate.kind, ?_, ?_, ?_, ?_⟩, rfl, pinnedSize_erase st.dict hget hevict⟩
  · change st.currentCacheSize - m.size - (totalSize (st.dict.erase key).values : ℤ) =
      st.currentCacheSize - (totalSize st.dict.values : ℤ)
    omega
  · exact Nat.le.intro ((Nat.add_comm _ _).trans hsize)
  · exact fun key' hkey' => ((Dict.contains_erase_iff _ _ _).mp hkey').1
  · intro key' hkey' htracks
    refine hcandidate.tracks key' ?_ htracks
    rcases hkey' with hstays | hnever
    · exact ((Dict.contains_erase_iff _ _ _).mp hstays).2
    · rintro rfl
      exact absurd (contains_of_get? hget) (by simp [hnever])

structure RoomMade (maxCacheSize size : ℕ) (st : DiskState K Λ X E)
    (result : RoomResult × DiskState K Λ X E) : Prop where
  evicted : Evicted st result.2
  room : result.1 = .room → result.2.currentCacheSize + size ≤ maxCacheSize
  full : result.1 = .full → maxCacheSize < result.2.currentCacheSize + size ∧
    ∀ key m, result.2.policy.Tracks key → result.2.dict.get? key = some m → m.canEvict = false

theorem length_erase_lt {V : Type} {d : Dict K V} {v : V} (hget : d.get? key = some v) :
    (d.erase key).items.length < d.items.length := by
  have hperm := d.values_erase_perm key
  rw [hget] at hperm
  have hlength := hperm.length_eq
  simp only [Dict.values, Option.toList_some, List.length_append, List.length_singleton,
    List.length_map] at hlength
  omega

theorem roomMade (maxCacheSize size fuel : ℕ) (st : DiskState K Λ X E)
    (hfuel : st.dict.items.length ≤ fuel) :
    RoomMade maxCacheSize size st (makeRoom maxCacheSize size fuel st) := by
  fun_induction makeRoom maxCacheSize size fuel st with
  | case1 _ st hroom => exact ⟨.refl st, fun _ => hroom, fun h => absurd h (by simp)⟩
  | case2 _ st => exact ⟨.refl st, fun h => absurd h (by simp), fun h => absurd h (by simp)⟩
  | case3 _ st hroom _ hnone =>
    have hpinned := (none_of_getEvictCandidates hnone).2
    exact ⟨.refl st, fun h => absurd h (by simp), fun _ => ⟨Int.not_le.mp hroom, hpinned⟩⟩
  | case4 st _ evictKey _ hcandidate =>
    obtain ⟨m, hget, _⟩ := (candidate_of_getEvictCandidates hcandidate).stored
    exact absurd (length_erase_lt hget) (by omega)
  | case5 _ st _ evictKey _ hcandidate hnone =>
    obtain ⟨m, hget, _⟩ := (candidate_of_getEvictCandidates hcandidate).stored
    exact absurd (hget.symm.trans hnone) (by simp)
  | case6 st _ evictKey policy hsome fuel m hget st' hfile ih =>
    have hlt := length_erase_lt hget
    have hevicted := evicted_evict (candidate_of_getEvictCandidates hsome) hget
    have hrest := ih (by change (st.dict.erase evictKey).items.length ≤ fuel; omega)
    exact ⟨hevicted.trans hrest.evicted, hrest.room, hrest.full⟩
  | case7 st _ evictKey policy hsome fuel m hget =>
    have hevicted := evicted_evict (candidate_of_getEvictCandidates hsome) hget
    exact ⟨hevicted, fun h => absurd h (by simp), fun h => absurd h (by simp)⟩

end DiskState

end LMCache

namespace LMCache

variable {K Λ X E : Type} [DecidableEq K]

namespace DiskState

variable {cfg : LocalDiskConfig K Λ} {st st' : DiskState K Λ X E} {key : K} {size : ℕ}

def inProgress (st : DiskState K Λ X E) (key : K) : Prop := ∃ task ∈ st.tasks, task.key = key

structure Accounts (cfg : LocalDiskConfig K Λ) (st : DiskState K Λ X E) : Prop where
  accounted : st.Accounted cfg
  nodup : (st.tasks.map DiskPutTask.key).Nodup
  registered : ∀ task ∈ st.tasks, task.key ∈ st.putTasks
  stored : ∀ key, st.dict.contains key = true → st.policy.Tracks key
  pending : ∀ task ∈ st.pendingTasks, st.policy.Tracks task.key
  fresh : st.policy.kind = .lfu → ∀ task ∈ st.pendingTasks, st.dict.contains task.key = false

theorem totalSize_pinned {entries : List (DiskCacheMetadata Λ X)}
    (h : ∀ m ∈ entries, m.canEvict = false) :
    totalSize (pinnedEntries entries) = totalSize entries := by
  rw [pinnedEntries, List.filter_eq_self.mpr fun m hm => by simp [h m hm]]

omit [DecidableEq K] in
theorem pendingTasks_congr (h : st'.tasks = st.tasks) : st'.pendingTasks = st.pendingTasks := by
  rw [pendingTasks, pendingTasks, h]

theorem Rebalanced.accounts (h : Rebalanced st st') (haccounts : st.Accounts cfg) : st'.Accounts cfg := by
  have hpending := pendingTasks_congr h.tasks
  have hbalance := h.balance
  have hexact := haccounts.accounted.exact
  have hle := haccounts.accounted.le_max
  refine ⟨?_, ?_, ?_, ?_, ?_, ?_⟩
  · have hsizes : st'.pendingSize = st.pendingSize := by rw [pendingSize, pendingSize, hpending]
    refine ⟨by rw [hsizes]; omega, by omega, ?_⟩
    have hstored := h.stored_le
    omega
  · rw [h.tasks]
    exact haccounts.nodup
  · rw [h.tasks, h.putTasks]
    exact haccounts.registered
  · exact fun key hkey => h.tracks key (.inl hkey) (haccounts.stored key (h.sub key hkey))
  · rw [hpending]
    intro task htask
    rcases Classical.em (st.policy.kind = .lfu) with hlfu | hother
    · exact h.tracks task.key (.inr (haccounts.fresh hlfu task htask)) (haccounts.pending task htask)
    · exact .of_kind (h.kind ▸ hother) task.key
  · rw [hpending, h.kind]
    intro hlfu task htask
    rw [← Bool.not_eq_true]
    exact fun hcontains => absurd (h.sub task.key hcontains)
      (by simp [haccounts.fresh hlfu task htask])

theorem Accounts.insertPutTask (h : st.Accounts cfg) (key : K) :
    (st.insertPutTask key).Accounts cfg where
  accounted := ⟨h.accounted.exact, h.accounted.nonneg, h.accounted.le_max⟩
  nodup := h.nodup
  registered := fun task htask => List.mem_append_left _ (h.registered task htask)
  stored := h.stored
  pending := h.pending
  fresh := h.fresh

def accept (st : DiskState K Λ X E) (key : K) (memoryObj : KVObject Λ X E) (size : ℕ) :
    DiskState K Λ X E :=
  { st with
    currentCacheSize := st.currentCacheSize + size
    policy := st.policy.updateOnPut key
    tasks := st.tasks ++ [⟨key, memoryObj, size, .queued⟩]
    puts := st.puts ++ [(key, memoryObj)] }

theorem pendingTasks_accept (st : DiskState K Λ X E) (key : K) (memoryObj : KVObject Λ X E)
    (size : ℕ) : (st.accept key memoryObj size).pendingTasks =
      st.pendingTasks ++ [⟨key, memoryObj, size, .queued⟩] := by
  rw [pendingTasks, accept, List.filter_append]
  rfl

theorem Accounts.accept (h : st.Accounts cfg) {memoryObj : KVObject Λ X E}
    (hregistered : key ∈ st.putTasks) (hidle : ¬ st.inProgress key)
    (hroom : st.currentCacheSize + size ≤ cfg.maxCacheSize)
    (hfresh : st.policy.kind = .lfu → st.dict.contains key = false) :
    (st.accept key memoryObj size).Accounts cfg := by
  have hpending := pendingTasks_accept st key memoryObj size
  have hexact := h.accounted.exact
  have hnonneg := h.accounted.nonneg
  refine ⟨⟨?_, ?_, hroom⟩, ?_, ?_, ?_, ?_, ?_⟩
  · rw [pendingSize, hpending, List.map_append, List.sum_append]
    change st.currentCacheSize + size = (st.storedSize : ℤ) + ((st.pendingSize + (size + 0) : ℕ) : ℤ)
    omega
  · change 0 ≤ st.currentCacheSize + size
    omega
  · change ((st.tasks ++ [_]).map DiskPutTask.key).Nodup
    rw [List.map_append, List.nodup_append]
    refine ⟨h.nodup, List.nodup_singleton _, ?_⟩
    rintro _ htask _ hkey rfl
    obtain ⟨task, hmem, rfl⟩ := List.mem_map.mp htask
    exact hidle ⟨task, hmem, List.mem_singleton.mp hkey⟩
  · intro task htask
    rcases List.mem_append.mp htask with hold | hnew
    · exact h.registered task hold
    · obtain rfl := List.mem_singleton.mp hnew
      exact hregistered
  · exact fun key' hkey' => (h.stored key' hkey').updateOnPut key
  · rw [hpending]
    intro task htask
    rcases List.mem_append.mp htask with hold | hnew
    · exact (h.pending task hold).updateOnPut key
    · obtain rfl := List.mem_singleton.mp hnew
      exact CachePolicy.tracks_updateOnPut_self _ _
  · rw [hpending]
    intro hlfu task htask
    change (st.policy.updateOnPut key).kind = .lfu at hlfu
    rw [CachePolicy.kind_updateOnPut] at hlfu
    rcases List.mem_append.mp htask with hold | hnew
    · exact h.fresh hlfu task hold
    · obtain rfl := List.mem_singleton.mp hnew
      exact hfresh hlfu

inductive Submitted (cfg : LocalDiskConfig K Λ) (st : DiskState K Λ X E) (key : K)
    (memoryObj : KVObject Λ X E) (size : ℕ) : DiskState K Λ X E → Prop
  | skipped : key ∈ st.putTasks → Submitted cfg st key memoryObj size st
  | accepted {st' : DiskState K Λ X E} : key ∉ st.putTasks →
      Evicted (st.insertPutTask key) st' → st'.currentCacheSize + size ≤ cfg.maxCacheSize →
      Submitted cfg st key memoryObj size (st'.accept key memoryObj size)
  | refused {st' : DiskState K Λ X E} : key ∉ st.putTasks → Evicted (st.insertPutTask key) st' →
      cfg.maxCacheSize < st'.currentCacheSize + size →
      (∀ key m, st'.policy.Tracks key → st'.dict.get? key = some m → m.canEvict = false) →
      Submitted cfg st key memoryObj size st'
  | raised {st' : DiskState K Λ X E} : key ∉ st.putTasks → Evicted (st.insertPutTask key) st' →
      (makeRoom cfg.maxCacheSize size st.dict.items.length (st.insertPutTask key)).1 = .raised →
      Submitted cfg st key memoryObj size st'

theorem submitted (cfg : LocalDiskConfig K Λ) (st : DiskState K Λ X E) (key : K)
    (memoryObj : KVObject Λ X E) (size : ℕ) :
    Submitted cfg st key memoryObj size (st.submitPutTask cfg key memoryObj size) := by
  rw [submitPutTask]
  split_ifs with hregistered
  · exact .skipped hregistered
  · have hmade := roomMade cfg.maxCacheSize size st.dict.items.length (st.insertPutTask key)
      (Nat.le_refl _)
    cases hresult : makeRoom cfg.maxCacheSize size st.dict.items.length (st.insertPutTask key) with
    | mk result st' =>
      rw [hresult] at hmade
      cases result with
      | room => exact .accepted hregistered hmade.evicted (hmade.room rfl)
      | full => exact .refused hregistered hmade.evicted (hmade.full rfl).1 (hmade.full rfl).2
      | raised => exact .raised hregistered hmade.evicted (by rw [hresult])

theorem Accounts.submitPutTask (h : st.Accounts cfg) (memoryObj : KVObject Λ X E)
    (hfresh : st.policy.kind = .lfu → st.dict.contains key = false) :
    (st.submitPutTask cfg key memoryObj size).Accounts cfg := by
  have hinserted := h.insertPutTask key
  have hsubmitted := submitted cfg st key memoryObj size
  generalize st.submitPutTask cfg key memoryObj size = result at hsubmitted ⊢
  cases hsubmitted with
  | skipped hregistered => exact h
  | accepted hnew hevicted hroom =>
    refine (hevicted.accounts hinserted).accept ?_ ?_ hroom ?_
    · rw [hevicted.putTasks]
      exact List.mem_append_right _ List.mem_cons_self
    · rintro ⟨task, htask, rfl⟩
      rw [hevicted.tasks] at htask
      exact hnew (h.registered task htask)
    · rw [hevicted.kind]
      intro hlfu
      rw [← Bool.not_eq_true]
      exact fun hcontains => absurd (hevicted.sub _ hcontains) (by
        have hnever := hfresh hlfu
        change ¬ st.dict.contains key = true
        simp [hnever])
  | refused hnew hevicted hfull hpinned => exact hevicted.accounts hinserted
  | raised hnew hevicted hraised => exact hevicted.accounts hinserted

theorem noRoom_of_refused (h : st.Accounts cfg) (memoryObj : KVObject Λ X E)
    (hidle : ¬ st.inProgress key)
    (hclean : st.NoRoom cfg size ∨ (key ∈ st.putTasks → st.inProgress key) ∧
      (key ∉ st.putTasks → (makeRoom cfg.maxCacheSize size st.dict.items.length
        (st.insertPutTask key)).1 ≠ .raised))
    (hputs : (st.submitPutTask cfg key memoryObj size).puts = st.puts) : st.NoRoom cfg size := by
  rcases hclean with hnoRoom | ⟨hstuck, hraises⟩
  · exact hnoRoom
  have hinserted := h.insertPutTask key
  generalize hresult : st.submitPutTask cfg key memoryObj size = result at hputs
  have hsubmitted := submitted cfg st key memoryObj size
  rw [hresult] at hsubmitted
  cases hsubmitted with
  | skipped hregistered => exact absurd (hstuck hregistered) hidle
  | accepted hnew hevicted hroom =>
    change _ ++ [(key, memoryObj)] = st.puts at hputs
    rw [hevicted.puts] at hputs
    exact absurd (congrArg List.length hputs) (by simp [insertPutTask])
  | refused hnew hevicted hfull hpinned =>
    have haccounts := hevicted.accounts hinserted
    have hall : ∀ m ∈ result.dict.values, m.canEvict = false := by
      intro m hm
      obtain ⟨key', hget⟩ := (Dict.mem_values_iff _ _).mp hm
      exact hpinned key' m (haccounts.stored key' (contains_of_get? hget)) hget
    have hstored : result.storedSize = st.pinnedSize := by
      rw [storedSize, ← totalSize_pinned hall]
      exact hevicted.pinned
    have hpending : result.pendingSize = st.pendingSize := by
      rw [pendingSize, pendingTasks_congr hevicted.tasks]
      rfl
    have hexact := haccounts.accounted.exact
    rw [NoRoom]
    omega
  | raised hnew hevicted hraised => exact absurd hraised (hraises hnew)

end DiskState

end LMCache
