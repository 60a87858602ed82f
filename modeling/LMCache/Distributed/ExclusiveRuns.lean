import LMCache.Distributed.Exclusivity

namespace LMCache

open Reservation Execution L1Manager TTLLock Nat List

namespace L1Clients

variable {C K : Type} [DecidableEq K]

theorem load_opening_le (ttl : Access → ℕ) (objOf : K → MemoryObj) (now : ℕ) (client : C)
    (access : Access) (count : ℕ) {keys : List K} (hnodup : keys.Nodup) (k : K) (a : Access) :
    load k a (opening ttl objOf now client access count keys) ≤
      if k ∈ keys ∧ access = a ∧ ttl access ≠ 0 then count else 0 := by
  induction keys with
  | nil => exact zero_le _
  | cons k' keys ih =>
    obtain ⟨hnot, hrest⟩ := nodup_cons.mp hnodup
    have hle := ih hrest
    rw [opening, map_cons, load_cons]
    rw [opening] at hle
    by_cases hk : k' = k
    · subst hk
      rw [if_neg (fun h => hnot h.1)] at hle
      by_cases hc : access = a ∧ ttl access ≠ 0
      · rw [if_pos (⟨mem_cons_self, hc⟩ : k' ∈ k' :: keys ∧ access = a ∧ ttl access ≠ 0)]
        split_ifs
        · change count + _ ≤ count
          omega
        · omega
      · have hnone : ¬ (access = a ∧ decide (ttl access = 0) = false) := by simpa using hc
        rw [if_neg fun h => hnone h.2]
        omega
    · rw [if_neg (fun h => hk h.1), zero_add]
      have hk' : k ≠ k' := fun h => hk h.symm
      simpa [hk'] using hle

theorem mem_writtenKeys {ret : Dict K L1OperationResult} {k : K} :
    k ∈ writtenKeys ret ↔ L1Manager.IsSuccess (ret.get? k) := by
  simp only [writtenKeys, mem_filter, Dict.mem_keys_iff, decide_eq_true_eq,
    Option.map_eq_some_iff, L1Manager.IsSuccess]
  constructor
  · rintro ⟨_, ⟨err, obj⟩, hget, rfl⟩
    exact ⟨obj, hget⟩
  · rintro ⟨obj, hget⟩
    exact ⟨⟨_, hget⟩, _, hget, rfl⟩

theorem nodup_writtenKeys (ret : Dict K L1OperationResult) : (writtenKeys ret).Nodup :=
  ret.nodup.filter _

variable {e : L1ObjectState}

theorem availableForWrite_iff {now : ℕ} (h : e.availableForWrite now = true) :
    ∀ a, (lockOf a e).held now = 0 := by
  simp only [L1ObjectState.availableForWrite, Bool.and_eq_true, Bool.not_eq_true',
    isLocked_eq_false_iff] at h
  intro a
  cases a
  · exact h.1.2
  · exact h.1.1

variable [DecidableEq C]

section Written

variable {s : L1Clients C K} {needs : List (K × Bool)} {mode : WriteMode} {m : L1Manager K}
  {ret : Dict K L1OperationResult}

omit [DecidableEq C] in
theorem Inv.backed_written (h : Inv s)
    (hout : ∀ k, L1Manager.WriteOutcome s.manager s.now mode needs k (s.manager.objects.get? k)
      (m.objects.get? k) (ret.get? k)) {r : Reservation C K} (hr : r ∈ s.opened)
    (hl : r.lapsed = false) :
    ∃ e, m.objects.get? r.key = some e ∧ e.memoryObj = r.obj ∧
      r.since + s.ttl r.access ≤ (lockOf r.access e).expirationMs := by
  obtain ⟨e, he, hobj, hexp⟩ := h.backed r hr hl
  have hsince := h.sinceLe r hr
  have httlMs := h.lockTtl r.key e he r.access
  obtain ⟨n, hn⟩ := (he ▸ hout r.key).kept
  refine ⟨_, hn, hobj, ?_⟩
  cases hra : r.access <;> rw [hra] at hexp httlMs
  · exact hexp
  · cases n with
    | zero => exact hexp
    | succ n =>
      simp only [lockOf, lockTimes_expirationMs] at httlMs ⊢
      omega

omit [DecidableEq C] in
theorem Inv.covered_written (h : Inv s)
    (hout : ∀ k, L1Manager.WriteOutcome s.manager s.now mode needs k (s.manager.objects.get? k)
      (m.objects.get? k) (ret.get? k)) (client : C) {k : K} {e' : L1ObjectState}
    (he' : m.objects.get? k = some e') (a : Access) :
    load k a (s.opened ++ opening s.ttl (objAt m) s.now client .write 1 (writtenKeys ret)) ≤
      (lockOf a e').held s.now := by
  rw [load_append]
  have hle := load_opening_le s.ttl (objAt m) s.now client .write 1 (nodup_writtenKeys ret) k a
  rcases (he' ▸ hout k).origin with ⟨e, n, he, rfl, havail, hpos⟩ | ⟨habsent, i, isTemp, _, rfl⟩
  · have httlMs : e.writeLock.ttlMs = s.ttl .write := h.lockTtl k e he .write
    have hcov := h.covered k e a he
    by_cases hc : k ∈ writtenKeys ret ∧ Access.write = a ∧ s.ttl .write ≠ 0
    · obtain ⟨hk, rfl, h0⟩ := hc
      have hn := hpos (mem_writtenKeys.mp hk)
      rw [if_pos ⟨hk, rfl, h0⟩] at hle
      simp only [lockOf, held_lockTimes n (by omega : 0 < e.writeLock.ttlMs)] at hcov ⊢
      omega
    · rw [if_neg hc] at hle
      have hmono : (lockOf a e).held s.now ≤
          (lockOf a { e with writeLock := e.writeLock.lockTimes s.now n }).held s.now := by
        cases a
        · exact le_rfl
        · cases n with
          | zero => exact le_rfl
          | succ n =>
            rw [availableForWrite_iff (havail n.succ_pos) .write]
            exact zero_le _
      omega
  · have hzero := h.load_of_absent habsent a
    split_ifs at hle with hc
    · obtain ⟨_, rfl, h0⟩ := hc
      have hheld : (lockOf .write (newEntry s.manager s.now i isTemp)).held s.now = 1 := by
        simp only [lockOf, newEntry]
        rw [held_lock (pos_of_ne_zero h0), held_init]
      omega
    · omega

end Written

theorem Inv.reserveWrite {s : L1Clients C K} (h : Inv s) (client : C) (granted : Bool)
    (keys : List K) (isTemporary : List Bool) (mode : WriteMode) :
    Inv (s.exec (.reserveWrite client granted keys isTemporary mode)) := by
  obtain ⟨needs, hmm, _, hout⟩ := s.manager.reserveWrite_spec s.now granted keys isTemporary mode
  obtain ⟨hwTtl, hrTtl⟩ := s.manager.reserveWrite_ttl s.now granted keys isTemporary mode
  have httl : (s.exec (.reserveWrite client granted keys isTemporary mode)).ttl = s.ttl := by
    simp only [ttl, exec, hwTtl, hrTtl]
  unfold Inv
  rw [httl]
  simp only [exec]
  generalize s.manager.reserveWrite s.now granted keys isTemporary mode = out at hmm hout
  obtain ⟨ret, m⟩ := out
  simp only at hmm hout ⊢
  have hnew : ∀ r ∈ opening s.ttl (objAt m) s.now client .write 1 (writtenKeys ret),
      L1Manager.IsSuccess (ret.get? r.key) ∧ r.obj = objAt m r.key ∧ r.access = .write ∧
        r.count = 1 ∧ r.since = s.now ∧ r.lapsed = decide (s.ttl .write = 0) := by
    intro r hr
    obtain ⟨k, hk, rfl⟩ := mem_map.mp hr
    exact ⟨mem_writtenKeys.mp hk, rfl, rfl, rfl, rfl, rfl⟩
  have horigin := fun k e' (he' : m.objects.get? k = some e') => (he' ▸ hout k).origin
  refine ⟨fun k e' he' a => ?_, fun k e' he' => ?_, fun obj hobj => ?_,
    fun k₁ k₂ e₁ e₂ h₁ h₂ heq => ?_, fun r hr hl => ?_, fun k e' a he' => ?_, fun r hr hl => ?_,
    fun r hr => ?_, fun r hr => ?_, fun r hr hl => ?_⟩
  · rcases horigin k e' he' with ⟨e, n, he, rfl, _⟩ | ⟨_, i, isTemp, _, rfl⟩
    · rw [← h.lockTtl k e he a]
      cases a <;> simp [lockOf]
    · cases a <;> rfl
  · rw [hmm]
    rcases horigin k e' he' with ⟨e, n, he, rfl, _⟩ | ⟨_, i, isTemp, hi, rfl⟩
    · obtain ⟨hlt, hfreed⟩ := h.resident k e he
      exact ⟨hlt.trans_le (le_add_right _ _), hfreed⟩
    · obtain ⟨hlt, _⟩ := List.getElem?_eq_some_iff.mp hi
      exact ⟨Nat.add_lt_add_left hlt _, fun hmem =>
        absurd (h.freedOld _ hmem) (not_lt.mpr (le_add_right _ _))⟩
  · rw [hmm] at hobj ⊢
    exact (h.freedOld obj hobj).trans_le (le_add_right _ _)
  · rcases horigin k₁ e₁ h₁ with ⟨d₁, n₁, hd₁, rfl, _⟩ | ⟨_, i, t₁, hi, rfl⟩ <;>
      rcases horigin k₂ e₂ h₂ with ⟨d₂, n₂, hd₂, rfl, _⟩ | ⟨_, j, t₂, hj, rfl⟩
    · exact h.distinct k₁ k₂ d₁ d₂ hd₁ hd₂ heq
    · exact absurd (heq ▸ (h.resident k₁ d₁ hd₁).1) (not_lt.mpr (le_add_right _ _))
    · exact absurd (heq ▸ (h.resident k₂ d₂ hd₂).1) (not_lt.mpr (le_add_right _ _))
    · have hij : i = j := add_left_cancel heq
      rw [hij, hj] at hi
      exact (Prod.mk.inj (Option.some.inj hi)).1.symm
  · rcases mem_append.mp hr with hr | hr
    · exact h.backed_written hout hr hl
    · obtain ⟨hs, hobj, haccess, _, hsince, _⟩ := hnew r hr
      obtain ⟨e', he'⟩ := (hout r.key).of_success hs
      refine ⟨e', he', by simp [hobj, objAt, he'], ?_⟩
      rw [hsince, haccess]
      rcases horigin r.key e' he' with ⟨e, n, he, rfl, _, hpos⟩ | ⟨_, i, isTemp, _, rfl⟩
      · obtain ⟨n, rfl⟩ := exists_eq_succ_of_ne_zero (hpos hs).ne'
        have httlMs : e.writeLock.ttlMs = s.ttl .write := h.lockTtl r.key e he .write
        simp [lockOf, lockTimes_expirationMs, httlMs]
      · exact le_rfl
  · exact h.covered_written hout client he' a
  · rcases mem_append.mp hr with hr | hr
    · exact h.expired r hr hl
    · obtain ⟨_, _, haccess, _, hsince, hlapsed⟩ := hnew r hr
      have h0 : s.ttl .write = 0 := by simpa [hlapsed] using hl
      rw [hsince, haccess, h0]
      exact le_rfl
  · rcases mem_append.mp hr with hr | hr
    · exact h.sinceLe r hr
    · exact (hnew r hr).2.2.2.2.1.le
  · rcases mem_append.mp hr with hr | hr
    · exact h.countPos r hr
    · rw [(hnew r hr).2.2.2.1]
      exact one_pos
  · rcases mem_append.mp hr with hr | hr
    · exact h.ttlPos r hr hl
    · obtain ⟨_, _, haccess, _, _, hlapsed⟩ := hnew r hr
      rw [haccess]
      simpa [hlapsed, pos_iff_ne_zero] using hl

theorem inv_exec (s : L1Clients C K) (l : ClientStep C K) (h : Inv s)
    (hl : Disciplined s l ∧ Prompt s l) : Inv (s.exec l) := by
  cases l with
  | advance ms => exact h.advance ms
  | reserveRead client keys extraCount => exact h.reserveRead client keys extraCount
  | reserveWrite client granted keys isTemporary mode =>
    exact h.reserveWrite client granted keys isTemporary mode
  | finishRead client closed extraCount => exact h.finishRead hl.1 hl.2
  | finishWrite client closed => exact h.finishWrite hl.1 hl.2
  | finishWriteAndReserveRead client closed extraCount =>
    exact h.finishWriteAndReserveRead hl.1 hl.2
  | delete keys => exact h.delete keys
  | clear => exact h.clear

variable {s : L1Clients C K}

omit [DecidableEq C] in
theorem writesRefused_of_unavailable {k : K} (he : s.manager.objects.get? k = some e)
    (hlocked : e.availableForWrite s.now = false) :
    WritesRefused s k := by
  intro granted keys isTemporary mode obj hsuccess
  obtain ⟨needs, _, _, hout⟩ := s.manager.reserveWrite_spec s.now granted keys isTemporary mode
  have hk := hout k
  rw [he, hsuccess] at hk
  generalize (s.manager.reserveWrite s.now granted keys isTemporary mode).2.objects.get? k = o at hk
  cases hk with
  | untouched hr => exact hr ⟨obj, rfl⟩
  | relocked n _ havail _ => simp [havail] at hlocked

omit [DecidableEq C] in
theorem readsRefused_of_unavailable {k : K} (he : s.manager.objects.get? k = some e)
    (hlocked : e.availableForRead s.now = false) :
    ReadsRefused s k := by
  intro keys extraCount obj hsuccess
  have hstep : ∀ o, o = some e → stepEntry
      (reserveReadKey s.now (1 + validateExtraCount extraCount)) o = some e := by
    rintro o rfl
    simp [stepEntry, reserveReadKey, hlocked]
  obtain ⟨o, rfl, hreply⟩ := (keyPass_spec (d := (L1Error.keyNotExist, none))
    hstep keys he).2 _ hsuccess
  simp [replyOf, reserveReadKey, hlocked] at hreply

omit [DecidableEq C] in
theorem Inv.exclusive (h : Inv s) : Exclusive s := by
  intro r hr hfresh
  have hl : r.lapsed = false := by
    by_contra hl
    have := h.expired r hr (by simpa using hl)
    omega
  obtain ⟨e, he, hobj, _⟩ := h.backed r hr hl
  have hheld : 0 < (lockOf r.access e).held s.now :=
    (h.countPos r hr).trans_le ((count_le_load hr hl).trans (h.covered _ e _ he))
  refine ⟨⟨e, he, hobj⟩, writesRefused_of_unavailable he ?_, ?_⟩
  · cases ha : r.access <;> rw [ha, lockOf, ← isLocked_iff] at hheld <;>
      simp [L1ObjectState.availableForWrite, hheld]
  · cases ha : r.access
    · rw [← hobj]
      exact (h.resident _ e he).2
    · rw [ha, lockOf, ← isLocked_iff] at hheld
      exact readsRefused_of_unavailable he (by simp [L1ObjectState.availableForRead, hheld])

theorem exclusive_of_prompt (writeTtl readTtl now : ℕ) (steps : List (ClientStep C K))
    (hdisciplined : Execution.Along exec Disciplined (init writeTtl readTtl now) steps)
    (hprompt : Execution.Along exec Prompt (init writeTtl readTtl now) steps) :
    Exclusive (final exec (init writeTtl readTtl now) steps) :=
  (invariant_final inv_exec (inv_init writeTtl readTtl now) (hdisciplined.and hprompt)).exclusive

instance (s : L1Clients C K) (client : C) (closed : List (Reservation C K)) (access : Access) :
    Decidable (Closes s client closed access) := inferInstanceAs (Decidable (_ ∧ _))

instance (s : L1Clients C K) (l : ClientStep C K) : Decidable (Disciplined s l) := by
  cases l <;> simp only [Disciplined] <;> infer_instance

instance (s : L1Clients C K) (r : Reservation C K) : Decidable (Stale s r) :=
  decidable_of_iff (r.lapsed = true ∧ ((s.manager.objects.get? r.key).any
    (fun e => (lockOf r.access e).isLocked s.now)) = true) (by simp [Stale, Option.any_eq_true])

instance (s : L1Clients C K) (l : ClientStep C K) : Decidable (Prompt s l) := by
  cases l <;> simp only [Prompt] <;> infer_instance

def lateFinish : List (ClientStep ℕ ℕ) :=
  [.reserveWrite 1 true [7] [false] .all, .finishWrite 1 [⟨1, 7, 0, .write, 1, 0, false⟩],
    .reserveRead 2 [7] 0,
    .advance 2000,
    .reserveRead 3 [7] 0,
    .finishRead 2 [⟨2, 7, 0, .read, 1, 0, true⟩] 0]

theorem not_exclusive_lateFinish :
    ¬ ∀ (writeTtl readTtl now : ℕ) (steps : List (ClientStep ℕ ℕ)),
      Execution.Along exec Disciplined (init writeTtl readTtl now) steps →
        Exclusive (final exec (init writeTtl readTtl now) steps) := by
  intro h
  have hdisciplined : Execution.Along exec Disciplined (init 1 1 0) lateFinish := by
    simp only [lateFinish, along_cons, along_nil]
    decide +kernel
  have hrefused := (h 1 1 0 lateFinish hdisciplined ⟨3, 7, 0, .read, 1, 2000, false⟩
    (by decide +kernel) (by decide +kernel)).2.1
  exact hrefused true [7] [false] .all (some 0) (by decide +kernel)

theorem exclusive_of_prompt_lateFinish : Exclusive (final exec (init 1 1 0) (lateFinish.take 5)) :=
  exclusive_of_prompt 1 1 0 (lateFinish.take 5)
    (by
      simp only [lateFinish, take, along_cons, along_nil]
      decide +kernel)
    (by
      simp only [lateFinish, take, along_cons, along_nil]
      decide +kernel)

end L1Clients

end LMCache
