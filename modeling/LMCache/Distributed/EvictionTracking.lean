import LMCache.Distributed.Commitment
import LMCache.Distributed.EvictionPolicy.LRU

namespace LMCache

open LRUEvictionPolicy L1Manager List

-- unfinished lists the keys that got a new object no finished write has been told of
structure TrackedL1 (K : Type) where
  manager : L1Manager K
  now : ℕ
  unfinished : List K

namespace TrackedL1

open L1History (Unfinished)

variable {K : Type} [DecidableEq K]

def init (writeTtl readTtl now : ℕ) : TrackedL1 K := ⟨L1Manager.init writeTtl readTtl, now, []⟩

variable (s : TrackedL1 K)

def policy : LRUEvictionPolicy K :=
  s.manager.notifications.foldl onNotification .create

def resident (m : L1Manager K) (k : K) : Bool := (m.objects.get? k).isSome

def unfinishedAfter : L1Step K → List K
  | .reserveWrite granted keys isTemporary mode =>
      s.unfinished ++ keys.filter (fun k => !resident s.manager k &&
        resident (s.manager.reserveWrite s.now granted keys isTemporary mode).2 k)
  | .finishWrite keys =>
      s.unfinished.filter (fun k => k ∉ (s.manager.finishWritePass s.now keys).successfulKeys)
  | .finishWriteAndReserveRead keys extraCount =>
      s.unfinished.filter (fun k =>
        k ∉ (s.manager.finishWriteAndReserveReadPass s.now keys extraCount).successfulKeys)
  | op => s.unfinished.filter (resident (s.manager.step s.now op))

def exec (op : L1Step K) : TrackedL1 K where
  manager := s.manager.step s.now op
  now := op.tick s.now
  unfinished := s.unfinishedAfter op

def Tracked : Prop :=
  (∀ k ∈ s.policy.order, resident s.manager k = true) ∧
    ∀ k e, s.manager.objects.get? k = some e → isUnlocked s.now e = true →
      k ∈ s.policy.order

def Prompt : L1Step K → Prop
  | .advance ms => ∀ k ∈ s.unfinished, ∀ e ∈ s.manager.objects.get? k,
      s.now + ms < e.writeLock.expirationMs
  | .reserveWrite granted keys isTemporary mode => granted = true → mode ≠ .update →
      (∃ r ∈ keys.zip isTemporary, s.manager.objects.get? r.1 = none) → 0 < s.manager.writeTtlSeconds
  | _ => True

structure Inv (s : TrackedL1 K) : Prop where
  tracked : ∀ k, k ∈ s.policy.order ↔ resident s.manager k = true ∧ k ∉ s.unfinished
  unfinished : ∀ k ∈ s.unfinished, ∃ e, s.manager.objects.get? k = some e ∧ Unfinished e ∧
    s.now < e.writeLock.expirationMs

variable {s : TrackedL1 K} {now total : ℕ} {e : L1ObjectState} {k : K} {op : L1Step K}

theorem policy_exec {ns : List (L1Notification K)}
    (h : (s.manager.step s.now op).notifications = s.manager.notifications ++ ns) :
    (s.exec op).policy = ns.foldl onNotification s.policy := by
  rw [policy, exec, h, foldl_append]
  rfl

theorem policy_exec_same (h : (s.manager.step s.now op).notifications = s.manager.notifications) :
    (s.exec op).policy = s.policy := by
  rw [policy, exec, h]
  rfl

theorem not_succeeds_reserveReadKey (hun : Unfinished e) (hlt : now < e.writeLock.expirationMs) :
    succeeds (reserveReadKey now total) (some e) = false := by
  simp [L1Manager.succeeds, L1Manager.reserveReadKey, L1ObjectState.availableForRead,
    hun.writeLocked hlt]

theorem not_succeeds_finishReadKey (hun : Unfinished e) (hlt : now < e.writeLock.expirationMs) :
    succeeds (finishReadKey now total) (some e) = false := by
  simp [L1Manager.succeeds, L1Manager.finishReadKey, hun.writeLocked hlt]

theorem not_succeeds_deleteKey (hun : Unfinished e) (hlt : now < e.writeLock.expirationMs) :
    succeeds (deleteKey now) (some e) = false := by
  simp [L1Manager.succeeds, L1Manager.deleteKey, hun.writeLocked hlt]

theorem isUnlocked_eq_false (hun : Unfinished e) (hlt : now < e.writeLock.expirationMs) :
    isUnlocked now e = false := by
  simp [isUnlocked, hun.writeLocked hlt]

theorem isUnlocked_of_le (hun : Unfinished e) (hle : e.writeLock.expirationMs ≤ now) :
    L1Manager.isUnlocked now e = true := by
  simp [L1Manager.isUnlocked, TTLLock.isLocked, hun.1, Nat.not_lt.mpr hle]

theorem Inv.tracks (h : Inv s) : Tracked s := by
  refine ⟨fun k hk => ((h.tracked k).mp hk).1, fun k e he hfree => ?_⟩
  refine (h.tracked k).mpr ⟨by rw [resident, he, Option.isSome_some], fun hmem => ?_⟩
  obtain ⟨e', he', hun, hlt⟩ := h.unfinished k hmem
  obtain rfl := Option.some.inj (he.symm.trans he')
  rw [isUnlocked_eq_false hun hlt] at hfree
  exact Bool.false_ne_true hfree

theorem inv_init (writeTtl readTtl now : ℕ) : Inv (init writeTtl readTtl now : TrackedL1 K) := by
  refine ⟨fun k => ?_, fun k hk => by simp [init] at hk⟩
  simp [init, policy, resident, L1Manager.init, create]

theorem Inv.of_frame (h : Inv s) (htick : op.tick s.now = s.now)
    (hafter : s.unfinishedAfter op = s.unfinished.filter (resident (s.manager.step s.now op)))
    (hkept : ∀ k ∈ s.unfinished, resident (s.manager.step s.now op) k = true →
      (s.manager.step s.now op).objects.get? k = s.manager.objects.get? k)
    (hold : ∀ k, resident (s.manager.step s.now op) k = true → resident s.manager k = true)
    (hpolicy : ∀ k, k ∈ (s.exec op).policy.order ↔
      k ∈ s.policy.order ∧ resident (s.manager.step s.now op) k = true) : Inv (s.exec op) := by
  refine ⟨fun k => ?_, fun k hk => ?_⟩
  · rw [hpolicy, h.tracked]
    change _ ↔ resident (s.manager.step s.now op) k = true ∧ k ∉ s.unfinishedAfter op
    rw [hafter, mem_filter]
    constructor
    · rintro ⟨⟨_, hnot⟩, hres⟩
      exact ⟨hres, fun hmem => hnot hmem.1⟩
    · rintro ⟨hres, hnot⟩
      exact ⟨⟨hold k hres, fun hmem => hnot ⟨hmem, hres⟩⟩, hres⟩
  · change k ∈ s.unfinishedAfter op at hk
    rw [hafter, mem_filter] at hk
    obtain ⟨e, he, hun, hlt⟩ := h.unfinished k hk.1
    exact ⟨e, (hkept k hk.1 hk.2).trans he, hun, by change op.tick s.now < _; rwa [htick]⟩

theorem Inv.reserveRead (h : Inv s) (keys : List K) (extraCount : ℤ) :
    Inv (s.exec (.reserveRead keys extraCount)) := by
  have hsome : ∀ k, resident (s.manager.step s.now (.reserveRead keys extraCount)) k =
      resident s.manager k := fun k =>
    keyPass_isSome_of_keeps (L1Clients.reserveReadKey_ne_drop _ _) s.manager.objects keys k
  refine h.of_frame rfl rfl (fun k hk _ => ?_) (fun k hk => (hsome k).symm.trans hk) fun k => ?_
  · obtain ⟨e, he, hun, hlt⟩ := h.unfinished k hk
    exact keyPass_of_not_succeeds (by rw [he]; exact not_succeeds_reserveReadKey hun hlt) keys
  · rw [policy_exec rfl, hsome]
    exact ⟨fun hk => ⟨hk, ((h.tracked k).mp hk).1⟩, And.left⟩

theorem Inv.not_mem_needToFreeKeys {R : Type} {d : R} {f : L1ObjectState → Verdict R}
    (h : Inv s) (keys : List K) :
    (k ∉ (keyPass d f s.manager.objects keys).needToFreeKeys ∧ k ∈ s.policy.order) ↔
      k ∈ s.policy.order ∧ ((keyPass d f s.manager.objects keys).objects.get? k).isSome = true := by
  rw [and_comm, mem_needToFreeKeys]
  refine and_congr_right fun hk => ?_
  have hres : (s.manager.objects.get? k).isSome = true := ((h.tracked k).mp hk).1
  rw [hres, Option.isSome_iff_ne_none]
  simp

theorem Inv.finishRead (h : Inv s) (keys : List K) (extraCount : ℤ) :
    Inv (s.exec (.finishRead keys extraCount)) := by
  refine h.of_frame rfl rfl (fun k hk _ => ?_) (fun k => isSome_of_keyPass) fun k => ?_
  · obtain ⟨e, he, hun, hlt⟩ := h.unfinished k hk
    exact keyPass_of_not_succeeds (by rw [he]; exact not_succeeds_finishReadKey hun hlt) keys
  · rw [policy_exec rfl]
    refine mem_onKeysRemoved.trans ?_
    rw [onNotification, mem_onKeysTouched]
    exact h.not_mem_needToFreeKeys keys

theorem Inv.delete (h : Inv s) (keys : List K) : Inv (s.exec (.delete keys)) := by
  refine h.of_frame rfl rfl (fun k hk _ => ?_) (fun k => isSome_of_keyPass) fun k => ?_
  · obtain ⟨e, he, hun, hlt⟩ := h.unfinished k hk
    exact keyPass_of_not_succeeds (by rw [he]; exact not_succeeds_deleteKey hun hlt) keys
  · rw [policy_exec rfl]
    refine mem_onKeysRemoved.trans ?_
    rw [keyPass_successfulKeys_of_drops (L1Clients.deleteKey_ne_keep s.now)]
    exact h.not_mem_needToFreeKeys keys

theorem Inv.finished {R : Type} {d : R} {f : L1ObjectState → Verdict R} {keys : List K} (h : Inv s)
    (hdrop : ∀ e r, f e ≠ .drop r) (htick : op.tick s.now = s.now)
    (hobjects : (s.manager.step s.now op).objects = (keyPass d f s.manager.objects keys).objects)
    (hafter : s.unfinishedAfter op = s.unfinished.filter (fun k =>
      k ∉ (keyPass d f s.manager.objects keys).successfulKeys))
    (hpolicy : ∀ k, k ∈ (s.exec op).policy.order ↔
      k ∈ (keyPass d f s.manager.objects keys).successfulKeys ∨ k ∈ s.policy.order) :
    Inv (s.exec op) := by
  refine ⟨fun k => ?_, fun k hk => ?_⟩
  · rw [hpolicy, h.tracked]
    change _ ↔ ((s.manager.step s.now op).objects.get? k).isSome = true ∧ k ∉ s.unfinishedAfter op
    rw [hobjects, keyPass_isSome_of_keeps hdrop, hafter, mem_filter]
    constructor
    · rintro (hk | ⟨hres, hnot⟩)
      · exact ⟨isSome_of_successful hk, by simp [hk]⟩
      · exact ⟨hres, fun hmem => hnot hmem.1⟩
    · rintro ⟨hres, hnot⟩
      by_cases hk : k ∈ (keyPass d f s.manager.objects keys).successfulKeys
      · exact .inl hk
      · exact .inr ⟨hres, fun hmem => hnot ⟨hmem, by simp [hk]⟩⟩
  · change k ∈ s.unfinishedAfter op at hk
    rw [hafter, mem_filter, decide_eq_true_eq] at hk
    obtain ⟨e, he, hun, hlt⟩ := h.unfinished k hk.1
    refine ⟨e, ?_, hun, by change op.tick s.now < _; rwa [htick]⟩
    change (s.manager.step s.now op).objects.get? k = _
    rw [hobjects, keyPass_of_not_successful hk.2, he]

theorem Inv.finishWrite (h : Inv s) (keys : List K) : Inv (s.exec (.finishWrite keys)) :=
  h.finished (L1Clients.finishWriteKey_ne_drop s.now) rfl rfl rfl fun k => by
    rw [policy_exec rfl]
    exact mem_onKeysCreated

theorem Inv.finishWriteAndReserveRead (h : Inv s) (keys : List K) (extraCount : ℤ) :
    Inv (s.exec (.finishWriteAndReserveRead keys extraCount)) :=
  h.finished (L1Clients.finishWriteAndReserveReadKey_ne_drop s.now _) rfl rfl rfl fun k => by
    rw [policy_exec rfl]
    exact mem_onKeysCreated

theorem mem_unlocked {objects : Dict K L1ObjectState} :
    k ∈ (objects.items.filter (fun item => isUnlocked now item.2)).map Prod.fst ↔
      ∃ e, objects.get? k = some e ∧ isUnlocked now e = true := by
  simp only [mem_map, mem_filter, Dict.get?_eq_some_iff]
  constructor
  · rintro ⟨⟨_, e⟩, ⟨hitem, hfree⟩, rfl⟩
    exact ⟨e, hitem, hfree⟩
  · rintro ⟨e, hitem, hfree⟩
    exact ⟨(k, e), ⟨hitem, hfree⟩, rfl⟩

theorem Inv.clear (h : Inv s) (force : Bool) : Inv (s.exec (.clear force)) := by
  cases force with
  | true =>
    refine h.of_frame rfl rfl (fun k _ hk => by simp [resident, L1Manager.step, L1Manager.clear,
      L1Manager.notify] at hk) (fun k hk => by simp [resident, L1Manager.step, L1Manager.clear,
      L1Manager.notify] at hk) fun k => ?_
    rw [policy_exec rfl]
    refine mem_onKeysRemoved.trans ⟨?_, ?_⟩
    · rintro ⟨hnot, hk⟩
      obtain ⟨e, he⟩ := Option.isSome_iff_exists.mp ((h.tracked k).mp hk).1
      exact absurd ((Dict.mem_keys_iff _ _).mpr ⟨e, he⟩) hnot
    · rintro ⟨_, hk⟩
      simp [resident, L1Manager.step, L1Manager.clear, L1Manager.notify] at hk
  | false =>
    have hget : ∀ k, (s.manager.step s.now (.clear false)).objects.get? k =
        if k ∈ (s.manager.objects.items.filter
          (fun item => L1Manager.isUnlocked s.now item.2)).map Prod.fst then none
        else s.manager.objects.get? k := by
      intro k
      simp only [L1Manager.step, L1Manager.clear, Bool.false_eq_true, if_false]
      split_ifs <;> simp only [L1Manager.notify] <;> rw [Dict.get?_foldl_erase] <;>
        simp_all
    refine h.of_frame rfl rfl (fun k hk _ => ?_) (fun k hk => ?_) fun k => ?_
    · obtain ⟨e, he, hun, hlt⟩ := h.unfinished k hk
      rw [hget, if_neg]
      rw [mem_unlocked]
      rintro ⟨e', he', hfree⟩
      obtain rfl := Option.some.inj (he.symm.trans he')
      rw [isUnlocked_eq_false hun hlt] at hfree
      exact Bool.false_ne_true hfree
    · rw [resident, hget] at hk
      split_ifs at hk
      · simp at hk
      · exact hk
    · have hpolicy : k ∈ (s.exec (.clear false)).policy.order ↔
          k ∉ (s.manager.objects.items.filter
            (fun item => L1Manager.isUnlocked s.now item.2)).map Prod.fst ∧ k ∈ s.policy.order := by
        rw [← mem_onKeysRemoved]
        by_cases hempty : ((s.manager.objects.items.filter
          (fun item => L1Manager.isUnlocked s.now item.2)).map Prod.fst).isEmpty = true
        · rw [policy_exec_same (by simp only [L1Manager.step, L1Manager.clear, Bool.false_eq_true,
            if_false, if_pos hempty]), isEmpty_iff.mp hempty]
          exact Iff.rfl
        · have hns : (s.manager.step s.now (.clear false)).notifications =
              s.manager.notifications ++ [.keysDeletedByManager ((s.manager.objects.items.filter
                (fun item => L1Manager.isUnlocked s.now item.2)).map Prod.fst)] := by
            simp only [L1Manager.step, L1Manager.clear, Bool.false_eq_true, if_false, if_neg hempty,
              L1Manager.notify]
          rw [policy_exec hns]
          exact Iff.rfl
      rw [hpolicy, and_comm, resident, hget]
      refine and_congr_right fun hk => ?_
      have hres : (s.manager.objects.get? k).isSome = true := ((h.tracked k).mp hk).1
      split_ifs with hmem
      · simp [hmem]
      · simp [hmem, hres]

theorem policy_reserveWrite (granted : Bool) (keys : List K) (isTemporary : List Bool)
    (mode : WriteMode) :
    (s.exec (.reserveWrite granted keys isTemporary mode)).policy = s.policy := by
  have hns : ∃ ns, (s.manager.step s.now (.reserveWrite granted keys isTemporary mode)).notifications =
      s.manager.notifications ++ ns ∧ ∀ p, ns.foldl onNotification p = p := by
    simp only [step, reserveWrite]
    split_ifs
    · exact ⟨[], (append_nil _).symm, fun _ => rfl⟩
    · exact ⟨[], (append_nil _).symm, fun _ => rfl⟩
    · cases granted with
      | false => exact ⟨_, rfl, fun _ => rfl⟩
      | true => exact ⟨_, rfl, fun _ => rfl⟩
  obtain ⟨ns, hns, hfold⟩ := hns
  rw [policy_exec hns, hfold]

variable {isTemporary : List Bool} {mode : WriteMode} {granted : Bool} {keys : List K}

theorem mem_unfinished_reserveWrite :
    k ∈ s.unfinishedAfter (.reserveWrite granted keys isTemporary mode) ↔
      k ∈ s.unfinished ∨ k ∈ keys ∧ s.manager.objects.get? k = none ∧
        resident (s.manager.reserveWrite s.now granted keys isTemporary mode).2 k = true := by
  simp [unfinishedAfter, resident]

theorem Inv.reserveWrite (h : Inv s)
    (hprompt : Prompt s (.reserveWrite granted keys isTemporary mode)) :
    Inv (s.exec (.reserveWrite granted keys isTemporary mode)) := by
  refine ⟨fun k => ?_, fun k hk => ?_⟩
  · rw [policy_reserveWrite, h.tracked]
    change _ ↔ resident (s.manager.reserveWrite s.now granted keys isTemporary mode).2 k = true ∧
      k ∉ s.unfinishedAfter (.reserveWrite granted keys isTemporary mode)
    rw [mem_unfinished_reserveWrite]
    rcases s.manager.reserveWrite_cases s.now granted keys isTemporary mode k with
      ⟨e, n, he, he', _⟩ | ⟨hnone, hnone' | ⟨hkey, i, isTemp, hnew⟩⟩
    · simp [resident, he, he']
    · simp [resident, hnone, hnone']
    · simp [resident, hnone, hnew, hkey]
  · rcases mem_unfinished_reserveWrite.mp hk with hk | ⟨_, hnone, hres⟩
    · obtain ⟨e, he, hun, hlt⟩ := h.unfinished k hk
      rcases s.manager.reserveWrite_cases s.now granted keys isTemporary mode k with
        ⟨e', n, he', hafter, havail⟩ | ⟨hnone, _⟩
      · obtain rfl := Option.some.inj (he.symm.trans he')
        cases n with
        | zero => exact ⟨e, hafter, hun, hlt⟩
        | succ n =>
          have hfree := havail n.succ_pos
          simp [L1ObjectState.availableForWrite, hun.writeLocked hlt] at hfree
      · simp [hnone] at he
    · rcases s.manager.reserveWrite_cases s.now granted keys isTemporary mode k with
        ⟨e, n, he, _⟩ | ⟨_, hnone' | ⟨_, i, isTemp, hnew⟩⟩
      · simp [hnone] at he
      · simp [resident, hnone'] at hres
      · obtain ⟨hgranted, hmode, hmem⟩ :=
          (s.manager.reserveWrite_absent_iff s.now granted keys isTemporary mode hnone).mp hres
        obtain ⟨r, hr, rfl⟩ := mem_map.mp hmem
        have httl := hprompt hgranted hmode ⟨r, hr, hnone⟩
        refine ⟨_, hnew, ⟨rfl, TTLLock.lock_counter_pos _ _⟩, ?_⟩
        change s.now < s.now + s.manager.writeTtlSeconds * 1000
        omega

theorem Inv.advance (h : Inv s) {ms : ℕ} (hprompt : Prompt s (.advance ms)) :
    Inv (s.exec (.advance ms)) := by
  have hafter : ∀ k, k ∈ s.unfinishedAfter (.advance ms) ↔ k ∈ s.unfinished := by
    intro k
    refine mem_filter.trans (and_iff_left_of_imp fun hk => ?_)
    obtain ⟨e, he, _⟩ := h.unfinished k hk
    exact Option.isSome_iff_exists.mpr ⟨e, he⟩
  refine ⟨fun k => ?_, fun k hk => ?_⟩
  · change k ∈ s.policy.order ↔ resident s.manager k = true ∧ k ∉ s.unfinishedAfter (.advance ms)
    rw [hafter, h.tracked]
  · have hmem := (hafter k).mp hk
    obtain ⟨e, he, hun, _⟩ := h.unfinished k hmem
    exact ⟨e, he, hun, hprompt k hmem e he⟩

theorem inv_exec (op : L1Step K) (h : Inv s) (hprompt : Prompt s op) : Inv (s.exec op) := by
  cases op with
  | advance ms => exact h.advance hprompt
  | reserveRead keys extraCount => exact h.reserveRead keys extraCount
  | unsafeRead keys =>
    refine h.of_frame rfl rfl (fun _ _ _ => rfl) (fun _ hk => hk) fun k => ?_
    exact ⟨fun hk => ⟨hk, ((h.tracked k).mp hk).1⟩, And.left⟩
  | finishRead keys extraCount => exact h.finishRead keys extraCount
  | reserveWrite granted keys isTemporary mode => exact h.reserveWrite hprompt
  | finishWrite keys => exact h.finishWrite keys
  | finishWriteAndReserveRead keys extraCount => exact h.finishWriteAndReserveRead keys extraCount
  | delete keys => exact h.delete keys
  | clear force => exact h.clear force

theorem Inv.prompt_of_tracked (h : Inv s) (op : L1Step K) (htracked : Tracked (s.exec op)) :
    Prompt s op := by
  cases op with
  | advance ms =>
    intro k hk e he
    by_contra hlt
    obtain ⟨e', he', hun, _⟩ := h.unfinished k hk
    obtain rfl := Option.some.inj (Option.mem_def.mp he |>.symm.trans he')
    have hmem : k ∈ s.policy.order := htracked.2 k e he (isUnlocked_of_le hun (Nat.not_lt.mp hlt))
    exact ((h.tracked k).mp hmem).2 hk
  | reserveWrite granted keys isTemporary mode =>
    rintro hgranted hmode ⟨r, hr, hnone⟩
    by_contra httl
    have hres := (s.manager.reserveWrite_absent_iff s.now granted keys isTemporary mode hnone).mpr
      ⟨hgranted, hmode, mem_map_of_mem hr⟩
    rcases s.manager.reserveWrite_cases s.now granted keys isTemporary mode r.1 with
      ⟨e, n, he, _⟩ | ⟨_, hnone' | ⟨_, i, isTemp, hnew⟩⟩
    · simp [hnone] at he
    · simp [hnone'] at hres
    · have hfree : isUnlocked s.now (s.manager.newEntry s.now i isTemp) = true := by
        refine isUnlocked_of_le ⟨rfl, TTLLock.lock_counter_pos _ _⟩ ?_
        change s.now + s.manager.writeTtlSeconds * 1000 ≤ s.now
        omega
      have hmem := htracked.2 r.1 _ hnew hfree
      rw [policy_reserveWrite] at hmem
      have hold := ((h.tracked r.1).mp hmem).1
      simp [resident, hnone] at hold
  | _ => trivial

theorem tracked_iff_prompt (writeTtl readTtl now : ℕ) (ops : List (L1Step K)) :
    Execution.Along exec (fun s op => Tracked (s.exec op)) (init writeTtl readTtl now) ops ↔
      Execution.Along exec Prompt (init writeTtl readTtl now) ops :=
  Execution.along_iff_along (I := Inv) (fun _ op h _ hprompt => inv_exec op h hprompt)
    (fun _ op h _ => ⟨h.prompt_of_tracked op, fun hprompt => (inv_exec op h hprompt).tracks⟩)
    (inv_init writeTtl readTtl now) (Execution.along_of_forall (fun _ _ => trivial) _ _)

def abandonedBuffer : List (L1Step ℕ) := [.reserveWrite true [7] [false] .all, .advance 2000]

theorem not_tracked_abandonedBuffer :
    ¬ ∀ (writeTtl readTtl now : ℕ) (ops : List (L1Step ℕ)),
      Execution.Along exec (fun s op => Tracked (s.exec op)) (init writeTtl readTtl now) ops := by
  intro h
  obtain ⟨_, hexpired, _⟩ := h 1 1 0 abandonedBuffer
  exact absurd (hexpired.2 7 _ rfl (by decide +kernel)) (by decide +kernel)

end TrackedL1

end LMCache
