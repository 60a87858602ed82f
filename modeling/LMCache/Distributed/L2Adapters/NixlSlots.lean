import Mathlib.Algebra.Order.Ring.Nat
import LMCache.Distributed.L2Adapters.NixlStore

namespace LMCache

open List NixlStoreObj Dict

namespace NixlStore

variable {K : Type}

def inFlightPages (s : NixlStore K) : List ℕ :=
  s.storeTasks.values.flatMap (fun task => task.plan.storageIndicesFlat)

def reachablePages (memoryObjects : Dict K NixlStoreObj) : List ℕ :=
  memoryObjects.values.flatMap pageIndices

def Conserved (numTotalObjs : ℕ) (s : NixlStore K) : Prop :=
  (s.pool.indices ++ s.inFlightPages ++ reachablePages s.memoryObjects).Perm (range numTotalObjs)

instance (numTotalObjs : ℕ) (s : NixlStore K) : Decidable (Conserved numTotalObjs s) :=
  inferInstanceAs (Decidable (List.Perm _ _))

structure Laid (s : NixlStore K) (pool : NixlObjPool) (plan : StorePlan) (count : ℕ)
    (built : StorePlan × NixlObjPool × Except String Unit) : Prop where
  pages : built.1.storageIndicesFlat ++ built.2.1.indices = plan.storageIndicesFlat ++ pool.indices
  flat : built.1.storageIndicesFlat = built.1.storageObjs.flatMap pageIndices
  count : built.1.storageObjs.length ≤ count

theorem laid_buildStore (s : NixlStore K) (objects : List MemoryMeta) (pool : NixlObjPool)
    (plan : StorePlan)
    (hflat : plan.storageIndicesFlat = plan.storageObjs.flatMap pageIndices) :
    Laid s pool plan (plan.storageObjs.length + objects.length) (s.buildStore objects pool plan) := by
  induction objects generalizing pool plan with
  | nil => exact ⟨rfl, hflat, Nat.le_add_right _ _⟩
  | cons obj objects ih =>
    rw [buildStore]
    cases s.getMemoryIndices obj.address obj.phySize with
    | error e => exact ⟨rfl, hflat, Nat.le_add_right _ _⟩
    | ok memIndices =>
      have halloc := pool.batchedAllocate_append memIndices.length
      dsimp only
      split_ifs with hempty
      · rw [hempty, nil_append] at halloc
        exact ⟨by rw [halloc], hflat, Nat.le_add_right _ _⟩
      · obtain ⟨hpages, hflat', hcount⟩ := ih (pool.batchedAllocate memIndices.length).2
          ⟨plan.memIndicesFlat ++ memIndices,
            plan.storageIndicesFlat ++ (pool.batchedAllocate memIndices.length).1,
            plan.storageObjs ++ [⟨(pool.batchedAllocate memIndices.length).1, obj.phySize, 1, hempty⟩]⟩
          (by simp [hflat])
        refine ⟨hpages.trans ?_, hflat', hcount.trans_eq ?_⟩
        · rw [append_assoc, halloc]
        · simp only [length_append, length_cons, length_nil]
          omega

def Batched (s : NixlStore K) : Prop :=
  ∀ task ∈ s.storeTasks.values,
    task.plan.storageIndicesFlat = task.pairs.flatMap (fun p => p.2.pageIndices)

structure Sound (numTotalObjs : ℕ) (s : NixlStore K) : Prop where
  conserved : Conserved numTotalObjs s
  numbered : Numbered s
  batched : Batched s

variable {s : NixlStore K} {n : ℕ}

theorem sound_init (l1AlignBytes n : ℕ) (h : 0 < l1AlignBytes) :
    Sound n (init l1AlignBytes n h : NixlStore K) := by
  refine ⟨?_, numbered_init l1AlignBytes n h, fun task htask => ?_⟩
  · simp [Conserved, init, inFlightPages, reachablePages, NixlObjPool.init, empty, values]
  · simp [init, empty, values] at htask

theorem conserved_of_perm {s' : NixlStore K} (h : Conserved n s)
    (hpages : (s'.pool.indices ++ s'.inFlightPages ++ reachablePages s'.memoryObjects).Perm
      (s.pool.indices ++ s.inFlightPages ++ reachablePages s.memoryObjects)) : Conserved n s' :=
  hpages.trans h

theorem Numbered.fresh_id (h : Numbered s) : s.storeTasks.get? s.nextTaskId = none :=
  (get?_eq_none_iff _ _).mpr fun hmem => Nat.lt_irrefl _ (h.stores _ hmem)

theorem inFlight_set (h : Numbered s) (task : NixlStoreTask K) :
    ((s.storeTasks.set s.nextTaskId task).values.flatMap
      (fun task => task.plan.storageIndicesFlat)).Perm
        (task.plan.storageIndicesFlat ++ s.inFlightPages) := by
  have hset := s.storeTasks.values_set_perm s.nextTaskId task
  rw [h.fresh_id] at hset
  exact hset.flatMap_right _

variable {task : NixlStoreTask K} {taskId : ℕ}

theorem inFlight_erase (htask : s.storeTasks.get? taskId = some task) :
    (task.plan.storageIndicesFlat ++ (s.storeTasks.erase taskId).values.flatMap
      (fun task => task.plan.storageIndicesFlat)).Perm s.inFlightPages := by
  have herase := s.storeTasks.values_erase_perm taskId
  rw [htask] at herase
  exact herase.flatMap_right (fun task => task.plan.storageIndicesFlat)

theorem Batched.set (h : Batched s)
    (htask : task.plan.storageIndicesFlat = task.pairs.flatMap (fun p => p.2.pageIndices)) :
    ∀ t ∈ (s.storeTasks.set s.nextTaskId task).values,
      t.plan.storageIndicesFlat = t.pairs.flatMap (fun p => p.2.pageIndices) := by
  intro t ht
  obtain ⟨id, hid⟩ := (mem_values_iff _ _).mp ht
  rw [get?_set] at hid
  split_ifs at hid
  · obtain rfl := Option.some.inj hid
    exact htask
  · exact h t ((mem_values_iff _ _).mpr ⟨id, hid⟩)

theorem Batched.erase (h : Batched s) (taskId : ℕ) :
    ∀ t ∈ (s.storeTasks.erase taskId).values,
      t.plan.storageIndicesFlat = t.pairs.flatMap (fun p => p.2.pageIndices) := by
  intro t ht
  obtain ⟨id, hid⟩ := (mem_values_iff _ _).mp ht
  rw [get?_erase] at hid
  split_ifs at hid
  exact h t ((mem_values_iff _ _).mpr ⟨id, hid⟩)

theorem Laid.pairs {plan plan' : StorePlan} {pool : NixlObjPool} {keys : List K} {count : ℕ}
    {built : StorePlan × NixlObjPool × Except String Unit} (h : Laid s pool plan count built)
    (hplan : built.1 = plan') (hcount : count ≤ keys.length) :
    plan'.storageIndicesFlat =
      (NixlStoreTask.pairs ⟨keys, plan'⟩).flatMap (fun p => p.2.pageIndices) := by
  subst hplan
  rw [h.flat, NixlStoreTask.pairs, ← flatMap_map (f := Prod.snd) (g := pageIndices),
    map_snd_zip (h.count.trans hcount)]

theorem Sound.submitStoreTask (h : Sound n s) (keys : List K) (objects : List MemoryMeta) :
    Sound n (s.submitStoreTask keys objects) := by
  refine ⟨?_, h.numbered.submitStoreTask keys objects, ?_⟩
  · have hlaid := s.laid_buildStore (objects.take keys.length) s.pool ⟨[], [], []⟩ rfl
    rw [NixlStore.submitStoreTask]
    generalize s.buildStore (objects.take keys.length) s.pool ⟨[], [], []⟩ = built at hlaid ⊢
    obtain ⟨plan, pool, _ | _⟩ := built
    · refine conserved_of_perm h.conserved ?_
      have hpages : plan.storageIndicesFlat ++ pool.indices = s.pool.indices := hlaid.pages
      dsimp only [NixlObjPool.batchedFree]
      rw [← hpages]
      exact (perm_append_comm.append_right _).append_right _
    · refine conserved_of_perm h.conserved ?_
      have hpages : plan.storageIndicesFlat ++ pool.indices = s.pool.indices := hlaid.pages
      rw [← hpages]
      refine List.Perm.append_right _ (((inFlight_set h.numbered ⟨keys, plan⟩).append_left _).trans ?_)
      rw [← append_assoc]
      exact perm_append_comm.append_right _
  · have hlaid := s.laid_buildStore (objects.take keys.length) s.pool ⟨[], [], []⟩ rfl
    rw [NixlStore.submitStoreTask]
    generalize s.buildStore (objects.take keys.length) s.pool ⟨[], [], []⟩ = built at hlaid ⊢
    obtain ⟨plan, pool, _ | _⟩ := built
    · exact h.batched
    · exact h.batched.set (hlaid.pairs rfl (by simp))

theorem perm_append_iff {xs ys zs : List ℕ} (h : (xs ++ ys).Perm zs) : ys.Perm zs ↔ xs = [] := by
  constructor
  · intro hys
    have hlen := h.length_eq.trans hys.length_eq.symm
    rw [length_append] at hlen
    exact length_eq_zero_iff.mp (by omega)
  · rintro rfl
    exact h

variable [DecidableEq K]

def Fresh (s : NixlStore K) : NixlEvent K → Prop
  | .storeDone taskId answers => ∀ task ∈ s.storeTasks.get? taskId, answers.run = some (.ok ()) →
      (task.pairs.map Prod.fst).Nodup ∧ ∀ k ∈ task.pairs.map Prod.fst, s.memoryObjects.get? k = none
  | _ => True

def displaced : Dict K NixlStoreObj → List (K × NixlStoreObj) → List NixlStoreObj
  | _, [] => []
  | objects, p :: ps =>
      (objects.get? p.1).toList ++ displaced (objects.set p.1 p.2.decreasePinCount) ps

variable (objects : Dict K NixlStoreObj)

theorem reachablePages_set (k : K) (obj : NixlStoreObj) :
    ((objects.get? k).toList.flatMap pageIndices ++
      reachablePages (objects.set k obj)).Perm (obj.pageIndices ++ reachablePages objects) := by
  have h := (objects.values_set_perm k obj).flatMap_right pageIndices
  rwa [flatMap_append, flatMap_cons] at h

variable (ps : List (K × NixlStoreObj))

theorem displaced_record :
    ((displaced objects ps).flatMap pageIndices ++
      reachablePages (record objects ps)).Perm
        (ps.flatMap (fun p => p.2.pageIndices) ++ reachablePages objects) := by
  induction ps generalizing objects with
  | nil => exact .refl _
  | cons p ps ih =>
    have hset := reachablePages_set objects p.1 p.2.decreasePinCount
    rw [decreasePinCount_pageIndices] at hset
    rw [displaced, record, foldl_cons, flatMap_append, flatMap_cons, append_assoc, append_assoc]
    refine ((ih (objects.set p.1 p.2.decreasePinCount)).append_left _).trans ?_
    rw [← append_assoc]
    refine (perm_append_comm.append_right _).trans ?_
    rw [append_assoc]
    refine (hset.append_left _).trans ?_
    rw [← append_assoc, ← append_assoc]
    exact perm_append_comm.append_right _

theorem displaced_eq_nil_iff :
    displaced objects ps = [] ↔
      (ps.map Prod.fst).Nodup ∧ ∀ k ∈ ps.map Prod.fst, objects.get? k = none := by
  induction ps generalizing objects with
  | nil => simp [displaced]
  | cons p ps ih =>
    rw [displaced, append_eq_nil_iff, Option.toList_eq_nil_iff, ih, map_cons, nodup_cons]
    constructor
    · rintro ⟨hnone, hnodup, habsent⟩
      have hne : ∀ k ∈ ps.map Prod.fst, p.1 ≠ k := by
        rintro k hk rfl
        simpa using habsent p.1 hk
      refine ⟨⟨fun hmem => hne p.1 hmem rfl, hnodup⟩, fun k hk => ?_⟩
      rcases mem_cons.mp hk with rfl | hk
      · exact hnone
      · rw [← get?_set_ne _ _ (hne k hk)]
        exact habsent k hk
    · rintro ⟨⟨hnot, hnodup⟩, habsent⟩
      refine ⟨habsent p.1 mem_cons_self, hnodup, fun k hk => ?_⟩
      have hne : p.1 ≠ k := by
        rintro rfl
        exact hnot hk
      rw [get?_set_ne _ _ hne]
      exact habsent k (mem_cons_of_mem _ hk)

theorem displaced_pages_eq_nil_iff (objs : List NixlStoreObj) :
    objs.flatMap pageIndices = [] ↔ objs = [] := by
  rw [flatMap_eq_nil_iff]
  constructor
  · intro h
    exact eq_nil_iff_forall_not_mem.mpr fun obj hobj =>
      obj.pageIndicesNonempty (h obj hobj)
  · rintro rfl obj hobj
    simp at hobj

theorem recorded_perm (h : Sound n s) (htask : s.storeTasks.get? taskId = some task) :
    ((displaced s.memoryObjects task.pairs).flatMap pageIndices ++
      (s.pool.indices ++ (s.storeTasks.erase taskId).values.flatMap
          (fun task => task.plan.storageIndicesFlat) ++
        reachablePages (record s.memoryObjects task.pairs))).Perm (range n) := by
  have hrecord := displaced_record s.memoryObjects task.pairs
  rw [← h.batched task ((mem_values_iff _ _).mpr ⟨taskId, htask⟩)] at hrecord
  refine List.Perm.trans ?_ h.conserved
  rw [← append_assoc]
  refine (perm_append_comm.append_right _).trans ?_
  rw [append_assoc]
  refine (hrecord.append_left _).trans ?_
  rw [← append_assoc, append_assoc s.pool.indices]
  exact (((perm_append_comm.trans (inFlight_erase htask)).append_left _)).append_right _

theorem Sound.finishStore_iff (h : Sound n s) (taskId : ℕ) (answers : XferAnswers) :
    Conserved n (s.finishStore taskId answers) ↔ Fresh s (.storeDone taskId answers) := by
  rw [NixlStore.finishStore, Fresh]
  cases htask : s.storeTasks.get? taskId with
  | none => exact iff_of_true h.conserved fun task ht => by simp at ht
  | some task =>
    rcases answers.run with _ | _ | _
    · exact iff_of_true h.conserved fun _ _ hrun => by simp at hrun
    · refine iff_of_true (conserved_of_perm h.conserved ?_) fun _ _ hrun => by simp at hrun
      dsimp only [NixlObjPool.batchedFree]
      rw [append_assoc s.pool.indices]
      exact ((inFlight_erase htask).append_left _).append_right _
    · refine (perm_append_iff (recorded_perm h htask)).trans ?_
      rw [displaced_pages_eq_nil_iff, displaced_eq_nil_iff]
      simp

theorem Sound.finishStore (h : Sound n s) {answers : XferAnswers}
    (hfresh : Fresh s (.storeDone taskId answers)) : Sound n (s.finishStore taskId answers) := by
  refine ⟨(h.finishStore_iff taskId answers).mpr hfresh, h.numbered.finishStore taskId answers, ?_⟩
  rw [NixlStore.finishStore]
  cases s.storeTasks.get? taskId with
  | none => exact h.batched
  | some task =>
    rcases answers.run with _ | _ | _
    · exact h.batched
    · exact h.batched.erase taskId
    · exact h.batched.erase taskId

theorem reachablePages_set_same {objects : Dict K NixlStoreObj} {k : K} {obj obj' : NixlStoreObj}
    (hk : objects.get? k = some obj) (hpages : obj'.pageIndices = obj.pageIndices) :
    (reachablePages (objects.set k obj')).Perm (reachablePages objects) := by
  have h := reachablePages_set objects k obj'
  rw [hk, hpages] at h
  exact (perm_append_left_iff _).mp (by simpa using h)

theorem reachablePages_lookupKeys (i : ℕ) (keys : List K) (bitmap : Bitmap)
    (objects : Dict K NixlStoreObj) :
    (reachablePages (lookupKeys i keys bitmap objects).2).Perm (reachablePages objects) := by
  induction keys generalizing i bitmap objects with
  | nil => exact .refl _
  | cons key keys ih =>
    rw [lookupKeys]
    cases hkey : objects.get? key with
    | none => exact ih (i + 1) bitmap objects
    | some obj => exact (ih _ _ _).trans (reachablePages_set_same hkey obj.increasePinCount_pageIndices)

theorem reachablePages_unlock (keys : List K) (objects : Dict K NixlStoreObj) :
    (reachablePages (keys.foldl unlockKey objects)).Perm (reachablePages objects) := by
  induction keys generalizing objects with
  | nil => exact .refl _
  | cons key keys ih =>
    refine (ih _).trans ?_
    rw [unlockKey]
    cases hkey : objects.get? key with
    | none => exact .refl _
    | some obj => exact reachablePages_set_same hkey obj.decreasePinCount_pageIndices

theorem Sound.of_perm (h : Sound n s) (event : NixlEvent K) {s' : NixlStore K}
    (hs' : s.exec event = s') (hpool : s'.pool = s.pool) (htasks : s'.storeTasks = s.storeTasks)
    (hpages : (reachablePages s'.memoryObjects).Perm (reachablePages s.memoryObjects)) :
    Sound n s' := by
  refine ⟨conserved_of_perm h.conserved ?_, hs' ▸ numbered_exec h.numbered event, ?_⟩
  · rw [inFlightPages, inFlightPages, hpool, htasks]
    exact hpages.append_left _
  · rw [Batched, htasks]
    exact h.batched

theorem sound_exec (h : Sound n s) {event : NixlEvent K} (hfresh : Fresh s event) :
    Sound n (s.exec event) := by
  cases event with
  | store keys objects => exact h.submitStoreTask keys objects
  | storeDone taskId answers => exact h.finishStore hfresh
  | popStores => exact h.of_perm .popStores rfl rfl rfl (.refl _)
  | lookup keys =>
    exact h.of_perm (.lookup keys) rfl rfl rfl (reachablePages_lookupKeys _ _ _ _)
  | queryLookup taskId => exact h.of_perm (.queryLookup taskId) rfl rfl rfl (.refl _)
  | unlock keys =>
    exact h.of_perm (.unlock keys) rfl rfl rfl (reachablePages_unlock _ _)
  | load keys objects answers =>
    have hload : ∀ t, (s.executeLoadInLoop keys objects t answers).pool = s.pool ∧
        (s.executeLoadInLoop keys objects t answers).storeTasks = s.storeTasks ∧
        (s.executeLoadInLoop keys objects t answers).memoryObjects = s.memoryObjects := by
      intro t
      rw [executeLoadInLoop]
      cases s.loadBitmap keys objects answers <;> exact ⟨rfl, rfl, rfl⟩
    obtain ⟨hpool, htasks, hobjects⟩ := hload s.nextTaskId
    exact h.of_perm (.load keys objects answers) rfl hpool htasks
      (.of_eq (congrArg reachablePages hobjects))
  | queryLoad taskId => exact h.of_perm (.queryLoad taskId) rfl rfl rfl (.refl _)

theorem Sound.conserved_iff_fresh (h : Sound n s) (event : NixlEvent K) :
    Conserved n (s.exec event) ↔ Fresh s event := by
  have hkept : ∀ event, Fresh s event → Conserved n (s.exec event) := fun event hfresh =>
    (sound_exec h hfresh).conserved
  cases event with
  | storeDone taskId answers => exact h.finishStore_iff taskId answers
  | _ => exact iff_of_true (hkept _ trivial) trivial

theorem slots_conserved_iff_fresh (l1AlignBytes numTotalObjs : ℕ) (hpos : 0 < l1AlignBytes)
    (events : List (NixlEvent K)) :
    Execution.Along exec (fun s event => Conserved numTotalObjs (s.exec event))
        (init l1AlignBytes numTotalObjs hpos) events ↔
      Execution.Along exec Fresh (init l1AlignBytes numTotalObjs hpos) events := by
  exact Execution.along_iff_along (I := Sound numTotalObjs) (fun s event h _ hfresh => sound_exec h hfresh)
    (fun s event h _ => h.conserved_iff_fresh event) (sound_init l1AlignBytes numTotalObjs hpos)
    (Execution.along_of_forall (fun _ _ => trivial) _ _)

def storeOnce : List (NixlEvent ℕ) :=
  [.store [7, 8] [⟨0, 4⟩, ⟨4, 8⟩], .storeDone 0 ⟨.ok (), .ok .proc, [.ok .done], .ok ()⟩,
    .store [9] [⟨0, 4⟩], .storeDone 1 ⟨.ok (), .ok .err, [], .ok ()⟩, .lookup [7], .unlock [7]]

theorem slots_conserved_iff_fresh_storeOnce :
    Execution.Along exec (fun s event => Conserved 4 (s.exec event)) (init 4 4 (by decide)) storeOnce ↔
      Execution.Along exec Fresh (init 4 4 (by decide)) storeOnce :=
  slots_conserved_iff_fresh 4 4 (by decide) storeOnce

def storeTwice : List (NixlEvent ℕ) :=
  [.store [7] [⟨0, 4⟩], .storeDone 0 ⟨.ok (), .ok .done, [], .ok ()⟩,
    .store [7] [⟨4, 4⟩], .storeDone 1 ⟨.ok (), .ok .done, [], .ok ()⟩]

theorem not_slots_conserved_storeTwice :
    ¬ ∀ events : List (NixlEvent ℕ),
      Execution.Along exec (fun s event => Conserved 4 (s.exec event)) (init 4 4 (by decide)) events := by
  intro h
  exact absurd (h storeTwice) (by decide +kernel)

end NixlStore

end LMCache
