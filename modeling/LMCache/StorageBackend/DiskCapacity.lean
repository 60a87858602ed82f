import LMCache.StorageBackend.DiskAccountingRuns

namespace LMCache

open Execution DiskCacheMetadata

variable {K Λ X E : Type} [DecidableEq K]

namespace DiskEvent

open DiskState

def FairRefusal (cfg : LocalDiskConfig K Λ) (st : DiskState K Λ X E) : DiskEvent K Λ X E → Prop
  | .submitPutTask key memoryObj size =>
      st.locked = false → ¬ st.inProgress key →
        (st.submitPutTask cfg key memoryObj size).puts = st.puts → st.NoRoom cfg size
  | _ => True

def KeepsBooks (cfg : LocalDiskConfig K Λ) (st : DiskState K Λ X E) : DiskEvent K Λ X E → Prop
  | .submitPutTask key _ size =>
      st.locked = false → st.NoRoom cfg size ∨ (key ∈ st.putTasks → st.inProgress key) ∧
        (key ∉ st.putTasks → (makeRoom cfg.maxCacheSize size st.dict.items.length
          (st.insertPutTask key)).1 ≠ .raised)
  | .insertKey key =>
      st.locked = false → ∀ task, st.taskOf key .written = some task →
        st.dict.contains key = true → task.size = 0
  | .remove key => st.locked = false → ∀ m, st.dict.get? key = some m → m.size = 0
  | .readFile jobId =>
      ∀ job target toLoad, st.headTarget jobId .allocated = some (job, target, toLoad) →
        st.files target.diskMeta.path = none → ∀ m, st.dict.get? target.key = some m → m.size = 0
  | _ => True

def NewToLFU (st : DiskState K Λ X E) : DiskEvent K Λ X E → Prop
  | .submitPutTask key _ _ => st.policy.kind = .lfu → st.dict.contains key = false
  | _ => True

end DiskEvent

namespace LocalDiskConfig

open DiskState DiskEvent

variable {cfg : LocalDiskConfig K Λ} {st : DiskState K Λ X E} (event : DiskEvent K Λ X E)

theorem accounts_step (h : st.Accounts cfg) (hnew : NewToLFU st event)
    (hbooks : KeepsBooks cfg st event) : (cfg.exec st event).Accounts cfg := by
  have hwhile : ∀ st' : DiskState K Λ X E, (st.locked = false → st'.Accounts cfg) →
      (if st.locked then st else st').Accounts cfg := by
    intro st' hst'
    split_ifs with hlocked
    · exact h
    · exact hst' (by simpa using hlocked)
  cases event with
  | submitPutTask key memoryObj size => exact hwhile _ fun _ => h.submitPutTask memoryObj hnew
  | writeFile key => exact h.writeFile key
  | insertKey key => exact hwhile _ fun hlocked => h.insertKey key (hbooks hlocked)
  | removePutTask key => exact h.removePutTask key
  | remove key =>
    exact hwhile _ fun hlocked => (rebalanced_remove st key (hbooks hlocked)).accounts h
  | getBlocking jobId key memory =>
    rw [exec]
    split_ifs
    · exact h
    · exact (rebalanced_getBlocking cfg st jobId key memory).accounts h
  | batchedGetNonBlocking jobId keys =>
    rw [exec]
    split_ifs
    · exact h
    · exact (rebalanced_finish st jobId _).accounts h
  | locate jobId memory =>
    exact hwhile _ fun _ => (rebalanced_locate cfg st jobId memory).accounts h
  | readFile jobId => exact (rebalanced_readFile st jobId hbooks).accounts h
  | takePositions jobId => exact (rebalanced_takePositions st jobId).accounts h
  | unpinLoaded jobId => exact hwhile _ fun _ => (rebalanced_unpinLoaded st jobId).accounts h
  | pin key =>
    exact hwhile _ fun _ => (rebalanced_setPins (f := pin) st key
      fun _ => rfl).accounts h
  | unpin key =>
    exact hwhile _ fun _ => (rebalanced_setPins (f := unpin) st key
      fun _ => rfl).accounts h
  | fileLost path =>
    have hsame : Rebalanced st (st.setFile path none) :=
      .of_get? rfl rfl rfl rfl rfl (fun _ h => h) fun _ h => h
    exact hsame.accounts h

theorem fairRefusal_of_keepsBooks (h : st.Accounts cfg) (hbooks : KeepsBooks cfg st event) :
    FairRefusal cfg st event := by
  cases event with
  | submitPutTask key memoryObj size =>
    intro hlocked hidle hputs
    exact noRoom_of_refused h memoryObj hidle (hbooks hlocked) hputs
  | _ => trivial

theorem accounts_start (cfg : LocalDiskConfig K Λ) (kind : PolicyKind) :
    (start kind : DiskState K Λ X E).Accounts cfg where
  accounted := ⟨rfl, Int.le_refl 0, Int.natCast_nonneg _⟩
  nodup := List.nodup_nil
  registered _ h := absurd h List.not_mem_nil
  stored _ h := absurd h Bool.false_ne_true
  pending _ h := absurd h List.not_mem_nil
  fresh _ _ h := absurd h List.not_mem_nil

def CapacityKept (cfg : LocalDiskConfig K Λ) (st : DiskState K Λ X E) (event : DiskEvent K Λ X E) :
    Prop :=
  (cfg.exec st event).Accounted cfg ∧ FairRefusal cfg st event

variable {m : DiskCacheMetadata Λ X}

theorem size_eq_zero_of_erase {key : K} {st' : DiskState K Λ X E} (hget : st.dict.get? key = some m)
    (h : st.Accounted cfg) (h' : st'.Accounted cfg) (hdict : st'.dict = st.dict.erase key)
    (htasks : st'.tasks = st.tasks) (hcurrent : st'.currentCacheSize = st.currentCacheSize) :
    m.size = 0 := by
  have hsize := storedSize_erase st.dict hget
  have hexact := h.exact
  have hexact' := h'.exact
  have hpending : st'.pendingSize = st.pendingSize := by
    rw [pendingSize, pendingTasks_congr htasks, pendingSize]
  rw [storedSize] at hexact hexact'
  rw [hdict, hpending, hcurrent] at hexact'
  omega

theorem remove_spec {key : K} (hget : st.dict.get? key = some m) :
    (st.remove key).dict = st.dict.erase key ∧ (st.remove key).tasks = st.tasks ∧
      (st.remove key).currentCacheSize = st.currentCacheSize := by
  rw [DiskState.remove, hget]
  dsimp only [evict]
  cases (st.files m.path).isSome with
  | false => exact ⟨rfl, rfl, rfl⟩
  | true =>
    dsimp only
    split <;> exact ⟨rfl, rfl, rfl⟩

theorem keepsBooks_of_kept (h : st.Accounts cfg) (hkept : CapacityKept cfg st event) :
    KeepsBooks cfg st event := by
  obtain ⟨haccounted, hfair⟩ := hkept
  cases event with
  | submitPutTask key memoryObj size =>
    intro hlocked
    by_contra hbad
    rw [not_or] at hbad
    have hputs : ¬ st.inProgress key → (st.submitPutTask cfg key memoryObj size).puts ≠ st.puts :=
      fun hidle hputs => hbad.1 (hfair hlocked hidle hputs)
    refine hbad.2 ⟨fun hregistered => ?_, fun hnew hraised => ?_⟩
    · by_contra hidle
      exact hputs hidle (by rw [DiskState.submitPutTask, if_pos hregistered])
    · have hidle : ¬ st.inProgress key := by
        rintro ⟨task, htask, rfl⟩
        exact hnew (h.registered task htask)
      have hmade := roomMade cfg.maxCacheSize size st.dict.items.length (st.insertPutTask key)
        (Nat.le_refl _)
      refine hputs hidle ?_
      rw [DiskState.submitPutTask, if_neg hnew]
      cases hresult : makeRoom cfg.maxCacheSize size st.dict.items.length (st.insertPutTask key) with
      | mk result st' =>
        rw [hresult] at hraised hmade
        obtain rfl : result = .raised := hraised
        exact hmade.evicted.puts
  | insertKey key =>
    intro hlocked task htask hstored
    rw [exec, hlocked, if_neg Bool.false_ne_true, DiskState.insertKey, htask] at haccounted
    obtain ⟨rfl, hwritten, hsplits⟩ := h.splits htask
    have hphase : task.phase ≠ .entered := by simp [hwritten]
    have hexact := h.accounted.exact
    have hexact' := haccounted.exact
    dsimp only at hexact'
    rw [if_pos hstored] at hexact'
    cases hupdate : st.policy.updateOnHit task.key st.dict with
    | none =>
      rw [hupdate] at hexact'
      have hdropped : (st.dropTask task.key).tasks.Perm ([] ++ _) := .of_eq hsplits.dropped
      have hpending := pendingSize_splits hsplits hdropped hphase fun _ h => absurd h List.not_mem_nil
      change st.currentCacheSize = (st.storedSize : ℤ) + _ at hexact'
      dsimp only at hexact'
      omega
    | some updated =>
      obtain ⟨policy, dict⟩ := updated
      rw [hupdate] at hexact'
      have hphased : ({ st with policy := policy, dict := dict }.setPhase task.key
          .entered).tasks.Perm ([{ task with phase := .entered }] ++ _) := hsplits.phased .entered
      have hpending := pendingSize_splits hsplits hphased hphase
        fun t ht => by rw [List.mem_singleton.mp ht]
      have hsizes : totalSize dict.values = st.storedSize :=
        totalSize_perm (CachePolicy.hit_of_updateOnHit hupdate).values
      change st.currentCacheSize = (totalSize dict.values : ℤ) + _ at hexact'
      dsimp only at hexact'
      omega
  | remove key =>
    intro hlocked m hget
    rw [exec, hlocked, if_neg Bool.false_ne_true] at haccounted
    obtain ⟨hdict, htasks, hcurrent⟩ := remove_spec hget
    exact size_eq_zero_of_erase hget h.accounted haccounted hdict htasks hcurrent
  | readFile jobId =>
    intro job target toLoad hhead hfile m hget
    rw [exec, DiskState.readFile, hhead] at haccounted
    dsimp only at haccounted
    rw [hfile] at haccounted
    exact size_eq_zero_of_erase hget h.accounted haccounted rfl rfl rfl
  | _ => trivial

theorem kind_step (hbooks : KeepsBooks cfg st event) :
    (cfg.exec st event).policy.kind = st.policy.kind := by
  have hwhile : ∀ st' : DiskState K Λ X E, (st.locked = false → st'.policy.kind = st.policy.kind) →
      (if st.locked then st else st').policy.kind = st.policy.kind := by
    intro st' hst'
    split_ifs with hlocked
    · rfl
    · exact hst' (by simpa using hlocked)
  cases event with
  | submitPutTask key memoryObj size =>
    refine hwhile _ fun _ => ?_
    have hsubmitted := submitted cfg st key memoryObj size
    generalize st.submitPutTask cfg key memoryObj size = result at hsubmitted ⊢
    cases hsubmitted with
    | skipped => rfl
    | accepted _ hevicted _ => exact (CachePolicy.kind_updateOnPut _ _).trans hevicted.kind
    | refused _ hevicted _ _ => exact hevicted.kind
    | raised _ hevicted _ => exact hevicted.kind
  | writeFile key =>
    rw [exec, DiskState.writeFile]
    split <;> rfl
  | insertKey key =>
    refine hwhile _ fun _ => ?_
    rw [DiskState.insertKey]
    cases st.taskOf key .written with
    | none => rfl
    | some task =>
      dsimp only
      split_ifs
      · cases hupdate : st.policy.updateOnHit key st.dict with
        | none => rfl
        | some updated => exact (CachePolicy.hit_of_updateOnHit hupdate).kind
      · rfl
  | removePutTask key =>
    rw [exec, DiskState.removePutTask]
    split <;> rfl
  | remove key =>
    exact hwhile _ fun hlocked => (rebalanced_remove st key (hbooks hlocked)).kind
  | getBlocking jobId key memory =>
    rw [exec]
    split_ifs
    · rfl
    · exact (rebalanced_getBlocking cfg st jobId key memory).kind
  | batchedGetNonBlocking jobId keys =>
    rw [exec]
    split_ifs
    · rfl
    · exact (rebalanced_finish st jobId _).kind
  | locate jobId memory => exact hwhile _ fun _ => (rebalanced_locate cfg st jobId memory).kind
  | readFile jobId => exact (rebalanced_readFile st jobId hbooks).kind
  | takePositions jobId => exact (rebalanced_takePositions st jobId).kind
  | unpinLoaded jobId => exact hwhile _ fun _ => (rebalanced_unpinLoaded st jobId).kind
  | pin key =>
    exact hwhile _ fun _ => (rebalanced_setPins (f := pin) st key
      fun _ => rfl).kind
  | unpin key =>
    exact hwhile _ fun _ => (rebalanced_setPins (f := unpin) st key
      fun _ => rfl).kind
  | fileLost path => rfl

theorem newToLFU_of_kind (h : st.policy.kind ≠ .lfu) (event : DiskEvent K Λ X E) :
    NewToLFU st event := by
  cases event with
  | submitPutTask key memoryObj size => exact fun hlfu => absurd hlfu h
  | _ => trivial

theorem along_capacityKept_iff (cfg : LocalDiskConfig K Λ) {kind : PolicyKind} (hkind : kind ≠ .lfu)
    (events : List (DiskEvent K Λ X E)) :
    Along cfg.exec (CapacityKept cfg) (start kind) events ↔
      Along cfg.exec (KeepsBooks cfg) (start kind) events := by
  have hstep : ∀ (st : DiskState K Λ X E) event, st.Accounts cfg ∧ st.policy.kind = kind →
      KeepsBooks cfg st event →
      (cfg.exec st event).Accounts cfg ∧ (cfg.exec st event).policy.kind = kind := by
    rintro st event ⟨haccounts, hst⟩ hbooks
    exact ⟨accounts_step event haccounts (newToLFU_of_kind (hst ▸ hkind) event) hbooks,
      (kind_step event hbooks).trans hst⟩
  refine along_iff_along (Q := fun _ _ => True) (I := fun st => st.Accounts cfg ∧
    st.policy.kind = kind) (fun st event h _ hbooks => hstep st event h hbooks)
    (fun st event h _ => ?_) ⟨accounts_start cfg kind, rfl⟩ (along_of_forall (fun _ _ => trivial) _ _)
  exact ⟨keepsBooks_of_kept event h.1, fun hbooks => ⟨(hstep st event h hbooks).1.accounted,
    fairRefusal_of_keepsBooks event h.1 hbooks⟩⟩

theorem capacity_kept (cfg : LocalDiskConfig K Λ) (kind : PolicyKind)
    (events : List (DiskEvent K Λ X E)) :
    (Along cfg.exec (fun st event => KeepsBooks cfg st event ∧ NewToLFU st event) (start kind)
        events →
      (∀ pre rest, events = pre ++ rest → (final cfg.exec (start kind) pre).Accounted cfg) ∧
        Along cfg.exec (FairRefusal cfg) (start kind) events) ∧
      (kind ≠ .lfu → (Along cfg.exec (CapacityKept cfg) (start kind) events ↔
        Along cfg.exec (KeepsBooks cfg) (start kind) events)) := by
  refine ⟨fun hclean => ?_, fun hkind => along_capacityKept_iff cfg hkind events⟩
  have hstep : ∀ (st : DiskState K Λ X E) event, st.Accounts cfg →
      KeepsBooks cfg st event ∧ NewToLFU st event → (cfg.exec st event).Accounts cfg :=
    fun st event h hstep => accounts_step event h hstep.2 hstep.1
  have hstart := accounts_start cfg kind (X := X) (E := E) (K := K)
  refine ⟨(forall_prefix_iff (I := fun st : DiskState K Λ X E => st.Accounted cfg) _ _).mpr
    ⟨hstart.accounted, ?_⟩, ?_⟩
  · exact along_of_invariant hstep (fun st event h hstep' => (hstep st event h hstep').accounted)
      hstart hclean
  · exact along_of_invariant hstep (fun st event h hstep' =>
      fairRefusal_of_keepsBooks event h hstep'.1) hstart hclean

def smallDisk : LocalDiskConfig (List Char) Unit := ⟨['k', 'v'], id, 8192, fun _ => 2⟩

def smallObj : KVObject Unit Unit Unit := ⟨[1, 2], (), [], (), none⟩

def storeKey (key : List Char) : List (DiskEvent (List Char) Unit Unit Unit) :=
  [.submitPutTask key smallObj 4096, .writeFile key, .insertKey key, .removePutTask key]

theorem capacity_kept_stored :
    (∀ pre rest, storeKey ['a'] = pre ++ rest →
        (final smallDisk.exec (start .lru) pre).Accounted smallDisk) ∧
      Along smallDisk.exec (FairRefusal smallDisk) (start .lru) (storeKey ['a']) := by
  refine (capacity_kept smallDisk .lru (storeKey ['a'])).1 ⟨⟨?_, ?_⟩, ⟨trivial, trivial⟩, ⟨?_, trivial⟩,
    ⟨trivial, trivial⟩, trivial⟩
  · exact fun _ => .inr ⟨fun h => absurd h List.not_mem_nil, fun _ => by decide⟩
  · exact fun h => absurd h (by decide)
  · exact fun _ _ _ h => absurd h (by decide)

theorem not_accounted_removed :
    ¬ (final smallDisk.exec (start .lru) (storeKey ['a'] ++ [.remove ['a']])).Accounted smallDisk :=
  fun h => absurd h.exact (by decide)

end LocalDiskConfig

end LMCache
