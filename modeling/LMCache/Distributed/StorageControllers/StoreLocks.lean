import LMCache.Distributed.StorageControllers.StoreController

namespace LMCache

open List L1Manager InFlightStoreTask Nat

namespace StoreRun

variable {K : Type} [DecidableEq K] (s : StoreRun K)

def LeavesLocks (op : L1Step K) : Prop :=
  ∀ k ∈ s.owed, (s.l1.step s.now op).Backed s.now (fun k => s.owed.count k) k

def FreshTask (taskId : ℕ) : StoreWork K → Prop
  | .target adapterIndex _ => s.controller.inFlightTasks.get? (adapterIndex, taskId) = none
  | _ => True

def Admissible : StoreEvent K → Prop
  | .other op => s.LeavesLocks op
  | .work taskId _ => ∀ item ∈ s.todo.head?, s.FreshTask taskId item
  | _ => True

def HeldLive : Prop := ∀ k ∈ s.owed, ∀ e ∈ s.l1.objects.get? k, e.Live s.now

instance (s : StoreRun K) (taskId : ℕ) (item : StoreWork K) : Decidable (s.FreshTask taskId item) :=
  match item with
  | .target _ _ => inferInstanceAs (Decidable (_ = _))
  | .completed _ _ _ | .deletion _ | .cleanup _ | .clearTasks => .isTrue trivial

instance (s : StoreRun K) (ev : StoreEvent K) : Decidable (s.Admissible ev) :=
  match ev with
  | .other _ => inferInstanceAs (Decidable (∀ k ∈ s.owed, L1Manager.Backed _ _ _ _))
  | .work taskId _ => inferInstanceAs (Decidable (∀ item ∈ s.todo.head?, s.FreshTask taskId item))
  | .newKeys _ | .adapterReady _ _ | .stop => .isTrue trivial

instance (s : StoreRun K) : Decidable s.HeldLive :=
  inferInstanceAs (Decidable (∀ k ∈ s.owed, ∀ e ∈ s.l1.objects.get? k, _))

structure Balanced (s : StoreRun K) : Prop where
  ledger : ∀ k, s.taken k = s.returned k + s.owed.count k
  backed : ∀ k, s.l1.Backed s.now (fun k => s.owed.count k) k
  released : s.stopped = true → ∀ k, s.taken k = s.returned k

structure Owes (s : StoreRun K) (owed : List K) : Prop where
  ledger : ∀ k, s.taken k = s.returned k + owed.count k
  backed : ∀ k, s.l1.Backed s.now (fun k => owed.count k) k

structure Inv (s : StoreRun K) : Prop where
  owes : s.Owes s.owed
  running : s.joined = false → ∀ item ∈ s.todo, item.isEnding = false
  ending : s.joined = true → s.todo = [] ∨
    ∃ tasks : List (InFlightStoreTask K), s.todo = tasks.map .cleanup ++ [.clearTasks]

variable {s : StoreRun K} {owed left : List K} {keys : List K} {s' : StoreRun K}

theorem Owes.of_eq (h : s.Owes owed) (hl1 : s'.l1 = s.l1) (hnow : s'.now = s.now)
    (htaken : s'.taken = s.taken) (hreturned : s'.returned = s.returned) : s'.Owes owed := by
  refine ⟨fun k => ?_, fun k => ?_⟩
  · rw [htaken, hreturned]
    exact h.ledger k
  · rw [hl1, hnow]
    exact h.backed k

theorem Owes.move (h : s.Owes owed) (howed : s'.owed = owed) (hl1 : s'.l1 = s.l1)
    (hnow : s'.now = s.now) (htaken : s'.taken = s.taken) (hreturned : s'.returned = s.returned) :
    s'.Owes s'.owed := by
  rw [howed]
  exact h.of_eq hl1 hnow htaken hreturned

theorem Owes.of_perm (h : s.Owes owed) (hperm : owed.Perm left) : s.Owes left := by
  refine ⟨fun k => ?_, fun k => ?_⟩
  · rw [h.ledger k, hperm.count_eq]
  · exact (h.backed k).of_get? rfl (hperm.count_eq k).symm

theorem Owes.reserveRead (h : s.Owes owed)
    (hlive : ∀ k ∈ owed ++ keys.filter (s.l1.readable s.now),
      ∀ e ∈ (s.call (.reserveRead keys 0)).l1.objects.get? k, e.Live s.now) :
    (s.call (.reserveRead keys 0)).Owes (owed ++ keys.filter (s.l1.readable s.now)) := by
  have hcount : ∀ k, (owed ++ keys.filter (s.l1.readable s.now)).count k =
      owed.count k + if s.l1.readable s.now k then keys.count k else 0 := by
    intro k
    rw [count_append]
    split_ifs with hread
    · rw [count_filter hread]
    · rw [count_eq_zero_of_not_mem fun hmem => hread (mem_filter.mp hmem).2]
  have hone : 1 + validateExtraCount 0 = 1 := rfl
  have hcharge : ∀ k, s.l1.charge s.now (.reserveRead keys 0) (fun k => owed.count k) k =
      (owed ++ keys.filter (s.l1.readable s.now)).count k := by
    intro k
    rw [charge_reserveRead, hone, mul_one, hcount]
  refine ⟨fun k => ?_, fun k => ?_⟩
  · simp only [call, count_readGranted_reserveRead, L1Step.lockTotal, hone, mul_one,
      readReturned, count_nil, add_zero]
    rw [hcount, h.ledger, add_assoc]
  · refine (backed_reserveRead (h.backed k) fun hpos e he => ?_).of_get? rfl
      (hcharge k).symm
    rw [hcharge] at hpos
    exact hlive k (count_pos_iff.mp hpos) e he

theorem Owes.finishRead (h : s.Owes (keys ++ left)) : (s.call (.finishRead keys 0)).Owes left := by
  have hone : 1 + validateExtraCount 0 = 1 := rfl
  have hheld : ∀ k, keys.count k * (1 + validateExtraCount 0) ≤ (keys ++ left).count k := by
    intro k
    rw [hone, mul_one, count_append]
    exact le_add_right _ _
  refine ⟨fun k => ?_, fun k => ?_⟩
  · have hreturned := count_readReturned_finishRead (h.backed k) (hheld k)
    simp only [call, hreturned, readGranted, L1Step.lockTotal, hone, mul_one, count_nil, add_zero]
    rw [h.ledger, count_append, add_assoc]
  · obtain ⟨hcharge, hbacked⟩ := charge_finishRead (h.backed k) (hheld k)
    refine hbacked.of_get? rfl ?_
    rw [hcharge, hone, Nat.mul_one, count_append, Nat.add_sub_cancel_left]

theorem Owes.delete (h : s.Owes owed) : (s.call (.delete keys)).Owes owed := by
  refine ⟨fun k => ?_, fun k => backed_delete (h.backed k)⟩
  simp only [call, readGranted, readReturned, count_nil, zero_mul, add_zero]
  exact h.ledger k

theorem successful_keys (s : StoreRun K) (targetKeys : List K) :
    (successful (s.l1.reserveRead s.now targetKeys 0).1 targetKeys).map Prod.fst =
      targetKeys.filter (s.l1.readable s.now) := by
  have hanswer : ∀ key ∈ targetKeys,
      (readObj (s.l1.reserveRead s.now targetKeys 0).1 key).map Prod.fst =
        if s.l1.readable s.now key then some key else none := by
    intro key hkey
    obtain ⟨r, hr⟩ := keyPass_ret_isSome (d := ((.keyNotExist, none) : L1OperationResult))
      (f := reserveReadKey s.now (1 + validateExtraCount 0)) hkey s.l1.objects
    change (s.l1.reserveRead s.now targetKeys 0).1.get? key = some r at hr
    rw [readObj, hr, readable]
    cases he : s.l1.objects.get? key with
    | none =>
      rw [s.l1.reserveReadPass_absent s.now targetKeys 0 he r hr]
      rfl
    | some e =>
      rw [s.l1.reserveReadPass_spec s.now targetKeys 0 he r hr, Option.any_some]
      split_ifs <;> rfl
  rw [successful, map_filterMap, ← filterMap_eq_filter]
  exact filterMap_congr hanswer

omit [DecidableEq K] in
theorem owed_of_running (hjoined : s.joined = false) :
    s.owed = s.controller.inFlightTasks.values.flatMap readLockedKeys := by
  rw [owed, tasks, hjoined]
  rfl

variable {adapterIndex taskId : ℕ}

omit [DecidableEq K] in
theorem owed_trackTask (hjoined : s.joined = false)
    (hfresh : s.controller.inFlightTasks.get? (adapterIndex, taskId) = none) (ks : List K) :
    (s.trackTask adapterIndex taskId ks).owed.Perm (s.owed ++ ks) := by
  have hset := s.controller.inFlightTasks.values_set_perm (adapterIndex, taskId)
    ⟨adapterIndex, ks, ks⟩
  rw [hfresh] at hset
  rw [owed_of_running hjoined, owed_of_running (s := s.trackTask _ _ _) hjoined]
  exact (hset.flatMap_right readLockedKeys).trans perm_append_comm

variable {task : InFlightStoreTask K}

omit [DecidableEq K] in
theorem owed_popTask (hjoined : s.joined = false)
    (htask : s.controller.inFlightTasks.get? (adapterIndex, taskId) = some task) :
    s.owed.Perm (task.readLockedKeys ++ (s.popTask adapterIndex taskId).owed) := by
  have herase := s.controller.inFlightTasks.values_erase_perm (adapterIndex, taskId)
  rw [htask] at herase
  rw [owed_of_running hjoined, owed_of_running (s := s.popTask _ _) hjoined]
  exact (herase.flatMap_right readLockedKeys).symm

omit [DecidableEq K] in
theorem owed_eq_of_running (hjoined : s.joined = false) (hjoined' : s'.joined = false)
    (htasks : s'.controller.inFlightTasks = s.controller.inFlightTasks) : s'.owed = s.owed := by
  rw [owed_of_running hjoined, owed_of_running hjoined', htasks]

omit [DecidableEq K] in
theorem owed_of_joined (hjoined : s.joined = true) {rest : List (InFlightStoreTask K)}
    (htodo : s.todo = rest.map .cleanup ++ [.clearTasks]) :
    s.owed = rest.flatMap readLockedKeys := by
  rw [owed, StoreRun.tasks, if_pos hjoined, htodo, filterMap_append, filterMap_map]
  exact congrArg _ ((congrArg (· ++ []) filterMap_some).trans (append_nil rest))

omit [DecidableEq K] in
theorem owed_of_stopped (hjoined : s.joined = true) (htodo : s.todo = []) : s.owed = [] := by
  rw [owed, StoreRun.tasks, if_pos hjoined, htodo]
  rfl

omit [DecidableEq K] in
theorem not_running_of_joined (hjoined : s.joined = true) : ¬ s.joined = false := by
  rw [hjoined]
  decide

omit [DecidableEq K] in
theorem not_joined_of_running (hjoined : s.joined = false) : ¬ s.joined = true := by
  rw [hjoined]
  decide

theorem processTarget_owes {targetKeys : List K} (h : s.Owes s.owed) (hjoined : s.joined = false)
    (hfresh : s.controller.inFlightTasks.get? (adapterIndex, taskId) = none)
    (hlive : (s.processTarget adapterIndex targetKeys taskId).HeldLive) :
    (s.processTarget adapterIndex targetKeys taskId).Owes
      (s.processTarget adapterIndex targetKeys taskId).owed := by
  simp only [processTarget, successful_keys] at hlive ⊢
  split_ifs at hlive ⊢ with hempty hinvalid hnone
  · exact h
  · exact h
  · have hsame : s.owed ++ targetKeys.filter (s.l1.readable s.now) = s.owed := by
      rw [isEmpty_iff.mp hnone, append_nil]
    have htaken := h.reserveRead (by rw [hsame]; exact hlive)
    rw [hsame] at htaken
    exact htaken
  · have howed := owed_trackTask (s := s.call (.reserveRead targetKeys 0)) hjoined hfresh
      (targetKeys.filter (s.l1.readable s.now))
    refine Owes.of_perm ?_ howed.symm
    have htaken := Owes.reserveRead h fun k hk e he => hlive k (howed.mem_iff.mpr hk) e he
    exact htaken.of_eq rfl rfl rfl rfl

theorem processCompletedTask_owes (policy : StorePolicy K) (adapterIndex taskId : ℕ) (success : Bool)
    (h : s.Owes s.owed) (hjoined : s.joined = false) :
    (s.processCompletedTask policy adapterIndex taskId success).Owes
      (s.processCompletedTask policy adapterIndex taskId success).owed := by
  cases htask : s.controller.inFlightTasks.get? (adapterIndex, taskId) with
  | none =>
    simp only [processCompletedTask, htask]
    exact h
  | some task =>
    have hleft : (s.popTask adapterIndex taskId).Owes
        (task.readLockedKeys ++ (s.popTask adapterIndex taskId).owed) :=
      (h.of_perm (owed_popTask hjoined htask)).of_eq rfl rfl rfl rfl
    have hreturned := hleft.finishRead
    simp only [processCompletedTask, htask]
    split_ifs
    · exact hreturned.move (owed_eq_of_running hjoined hjoined rfl) rfl rfl rfl rfl
    · exact hreturned

-- a completion takes its task out of flight and gives back the task's locks
theorem processCompletedTask_settles (policy : StorePolicy K) (success : Bool)
    (hjoined : s.joined = false)
    (htask : s.controller.inFlightTasks.get? (adapterIndex, taskId) = some task) :
    let s' := s.processCompletedTask policy adapterIndex taskId success
    s'.controller.inFlightTasks.get? (adapterIndex, taskId) = none ∧
      s.owed.Perm (task.readLockedKeys ++ s'.owed) := by
  have howed := owed_popTask hjoined htask
  simp only [processCompletedTask, htask]
  split_ifs <;> exact ⟨(Dict.get?_erase ..).trans (if_pos rfl), howed⟩

theorem todo_processTarget (s : StoreRun K) (adapterIndex taskId : ℕ) (targetKeys : List K) :
    (s.processTarget adapterIndex targetKeys taskId).todo = s.todo ∧
      (s.processTarget adapterIndex targetKeys taskId).joined = s.joined := by
  rw [processTarget]
  dsimp only
  split_ifs <;> exact ⟨rfl, rfl⟩

theorem todo_processCompletedTask (s : StoreRun K) (policy : StorePolicy K)
    (adapterIndex taskId : ℕ) (success : Bool) :
    (s.processCompletedTask policy adapterIndex taskId success).joined = s.joined ∧
      ∀ item ∈ (s.processCompletedTask policy adapterIndex taskId success).todo,
        item ∈ s.todo ∨ item.isEnding = false := by
  rw [processCompletedTask]
  cases s.controller.inFlightTasks.get? (adapterIndex, taskId) with
  | none => exact ⟨rfl, fun item hitem => .inl hitem⟩
  | some task =>
    dsimp only
    split_ifs
    · refine ⟨rfl, fun item hitem => ?_⟩
      rcases mem_cons.mp hitem with rfl | hitem
      · exact .inr rfl
      · exact .inl hitem
    · exact ⟨rfl, fun item hitem => .inl hitem⟩

theorem Inv.runWork_running (h : Inv s) (hjoined : s.joined = false) {taskId : ℕ}
    (policy : StorePolicy K) (hfresh : ∀ item ∈ s.todo.head?, s.FreshTask taskId item)
    (hlive : (s.runWork taskId policy).HeldLive) : Inv (s.runWork taskId policy) := by
  cases htodo : s.todo with
  | nil =>
    simp only [runWork, htodo]
    exact h
  | cons item todo =>
    have hitem := h.running hjoined item (htodo ▸ mem_cons_self)
    have hrest : ∀ item ∈ todo, item.isEnding = false := fun item hmem =>
      h.running hjoined item (htodo ▸ mem_cons_of_mem _ hmem)
    have howes : ({ s with todo := todo } : StoreRun K).Owes
        ({ s with todo := todo } : StoreRun K).owed :=
      h.owes.move (owed_eq_of_running hjoined hjoined rfl) rfl rfl rfl rfl
    simp only [runWork, htodo] at hlive ⊢
    cases item with
    | target adapterIndex targetKeys =>
      obtain ⟨htodo', hjoined'⟩ := todo_processTarget { s with todo := todo } adapterIndex taskId
        targetKeys
      refine ⟨processTarget_owes howes hjoined (hfresh (.target _ _) (by rw [htodo]; rfl)) hlive,
        fun _ => ?_, fun hj => ?_⟩
      · rw [htodo']
        exact hrest
      · exact absurd hj (not_joined_of_running (hjoined'.trans hjoined))
    | completed adapterIndex completedId success =>
      obtain ⟨hjoined', htodo'⟩ := todo_processCompletedTask { s with todo := todo } policy
        adapterIndex completedId success
      refine ⟨processCompletedTask_owes policy _ _ _ howes hjoined, fun _ item hmem => ?_,
        fun hj => ?_⟩
      · exact (htodo' item hmem).elim (hrest item) id
      · exact absurd hj (not_joined_of_running (hjoined'.trans hjoined))
    | deletion deleteKeys =>
      exact ⟨howes.delete, fun _ => hrest, fun hj => absurd hj (not_joined_of_running hjoined)⟩
    | cleanup task => cases hitem
    | clearTasks => cases hitem

theorem Inv.runWork_joined (h : Inv s) (hjoined : s.joined = true) (taskId : ℕ)
    (policy : StorePolicy K) : Inv (s.runWork taskId policy) := by
  rcases h.ending hjoined with htodo | ⟨tasks, htodo⟩
  · simp only [runWork, htodo]
    exact h
  · have howes := h.owes
    rw [owed_of_joined hjoined htodo] at howes
    cases tasks with
    | nil =>
      simp only [runWork, htodo, map_nil, nil_append]
      refine ⟨?_, fun hj => absurd hj (not_running_of_joined hjoined), fun _ => .inl rfl⟩
      exact howes.move (owed_of_stopped hjoined rfl) rfl rfl rfl rfl
    | cons task rest =>
      simp only [runWork, htodo, map_cons, cons_append]
      refine ⟨?_, fun hj => absurd hj (not_running_of_joined hjoined), fun _ => .inr ⟨rest, rfl⟩⟩
      rw [flatMap_cons] at howes
      have hpopped : ({ s with todo := rest.map .cleanup ++ [.clearTasks] } : StoreRun K).Owes
          (task.readLockedKeys ++ rest.flatMap readLockedKeys) :=
        howes.of_eq rfl rfl rfl rfl
      refine hpopped.finishRead.move ?_ rfl rfl rfl rfl
      exact owed_of_joined (by exact hjoined) (by rfl)

theorem Inv.other (h : Inv s) {op : L1Step K} (hop : s.LeavesLocks op)
    (hlive : (s.exec (.other op)).HeldLive) : Inv (s.exec (.other op)) := by
  refine ⟨⟨h.owes.ledger, fun k => ?_⟩, h.running, h.ending⟩
  intro hpos
  have hmem : k ∈ s.owed := count_pos_iff.mp hpos
  exact (hop k hmem).tick (op.le_tick s.now) (fun _ e he => hlive k hmem e he) hpos

theorem Inv.polled (h : Inv s) (hpolls : s.polls = true) (hl1 : s'.l1 = s.l1)
    (hnow : s'.now = s.now) (htaken : s'.taken = s.taken) (hreturned : s'.returned = s.returned)
    (htasks : s'.controller.inFlightTasks = s.controller.inFlightTasks)
    (hjoined : s'.joined = false) (htodo : ∀ item ∈ s'.todo, item.isEnding = false) : Inv s' := by
  have hrunning : s.joined = false := by simpa using (Bool.and_eq_true_iff.mp hpolls).2
  refine ⟨?_, fun _ => htodo, fun hj => absurd hj (not_joined_of_running hjoined)⟩
  exact h.owes.move (owed_eq_of_running hrunning hjoined htasks) hl1 hnow htaken hreturned

theorem inv_exec (ev : StoreEvent K) (h : Inv s)
    (hev : s.Admissible ev ∧ (s.exec ev).HeldLive) : Inv (s.exec ev) := by
  obtain ⟨hadmissible, hlive⟩ := hev
  cases ev with
  | other op => exact h.other hadmissible hlive
  | work taskId policy =>
    cases hjoined : s.joined with
    | true => exact h.runWork_joined hjoined taskId policy
    | false => exact h.runWork_running hjoined policy hadmissible hlive
  | newKeys policy =>
    simp only [exec]
    split_ifs with hpolls hkeys
    · have hrunning : s.joined = false := by simpa using (Bool.and_eq_true_iff.mp hpolls).2
      exact h.polled hpolls rfl rfl rfl rfl rfl hrunning (h.running hrunning)
    · have hrunning : s.joined = false := by simpa using (Bool.and_eq_true_iff.mp hpolls).2
      refine h.polled hpolls rfl rfl rfl rfl rfl hrunning fun item hitem => ?_
      obtain ⟨_, _, rfl⟩ := mem_map.mp hitem
      rfl
    · exact h
  | adapterReady adapterIndex completed =>
    simp only [exec]
    split_ifs with hpolls
    · have hrunning : s.joined = false := by simpa using (Bool.and_eq_true_iff.mp hpolls).2
      refine h.polled hpolls rfl rfl rfl rfl rfl hrunning fun item hitem => ?_
      obtain ⟨_, _, rfl⟩ := mem_map.mp hitem
      rfl
    · exact h
  | stop =>
    simp only [exec]
    split_ifs with hpolls
    · have hrunning : s.joined = false := by simpa using (Bool.and_eq_true_iff.mp hpolls).2
      refine ⟨?_, fun hj => absurd hj (by simp), fun _ => .inr ⟨_, rfl⟩⟩
      rw [owed_of_joined rfl rfl, ← owed_of_running hrunning]
      exact h.owes.of_eq rfl rfl rfl rfl
    · exact h

theorem Inv.balanced (h : Inv s) : s.Balanced := by
  refine ⟨h.owes.ledger, h.owes.backed, fun hstopped k => ?_⟩
  obtain ⟨hjoined, htodo⟩ := Bool.and_eq_true_iff.mp hstopped
  rw [h.owes.ledger, owed_of_stopped hjoined (isEmpty_iff.mp htodo)]
  rfl

theorem inv_start (l1 : L1Manager K) (now : ℕ) (adapters : List AdapterDescriptor) :
    Inv (start l1 now adapters) :=
  ⟨⟨fun _ => rfl, fun _ hpos => absurd hpos (lt_irrefl 0)⟩, fun _ _ hitem => (nomatch hitem),
    fun _ => .inl rfl⟩

theorem read_locks_balanced (l1 : L1Manager K) (now : ℕ) (adapters : List AdapterDescriptor)
    (events : List (StoreEvent K))
    (hrun : Execution.Along exec (fun s ev => s.Admissible ev ∧ (s.exec ev).HeldLive)
      (start l1 now adapters) events) :
    Execution.Along exec (fun s ev => (s.exec ev).Balanced) (start l1 now adapters) events :=
  Execution.along_of_invariant (I := Inv) (fun _ ev h hev => inv_exec ev h hev)
    (fun _ ev h hev => (inv_exec ev h hev).balanced) (inv_start l1 now adapters) hrun

def stoppedEarly : List (StoreEvent ℕ) :=
  [.other (.reserveWrite true [1, 2] [false, false] .new), .other (.finishWrite [1, 2]),
    .other (.reserveWrite true [1] [false] .update), .other (.finishWrite [1]),
    .newKeys .bufferOnly, .work 5 .bufferOnly, .work 5 .bufferOnly,
    .adapterReady 0 ⟨[(5, true), (9, false)], by decide⟩, .work 0 .bufferOnly, .work 0 .bufferOnly,
    .work 0 .bufferOnly, .stop, .work 0 .bufferOnly, .work 0 .bufferOnly]

theorem read_locks_balanced_stoppedEarly :
    Execution.Along exec (fun s ev => (s.exec ev).Balanced)
      (start (.init 600 300) 0 [⟨0⟩, ⟨1⟩]) stoppedEarly :=
  read_locks_balanced _ 0 _ stoppedEarly (by decide +kernel)

example : (Execution.final exec (start (.init 600 300) 0 [⟨0⟩, ⟨1⟩]) stoppedEarly).taken 1 = 4 := by
  decide +kernel

end StoreRun

end LMCache
