import LMCache.Distributed.ReadLedger
import LMCache.Distributed.StorageControllers.PrefetchController
import LMCache.Multiprocess.PollSchedules

namespace LMCache.LookupState

variable {K : Type} [DecidableEq K] (l1ReadResult : Dict K L1OperationResult)

def isHit (key : K) : Bool :=
  (l1ReadResult.get? key).any (fun entry => entry.1 == .success)

def isReserved (key : K) : Bool :=
  (l1ReadResult.get? key).any (fun entry => entry.2.isSome)

def hitCount (keys : List K) : ℕ :=
  (keys.takeWhile (isHit l1ReadResult)).length

def skippedKeys (keys : List K) : List K :=
  (keys.drop (hitCount l1ReadResult keys)).filter (isReserved l1ReadResult)

theorem isHit_reserveRead (m : L1Manager K) (now : ℕ) {keys : List K} (extraCount : ℤ) {k : K}
    (hk : k ∈ keys) :
    isHit (m.reserveRead now keys extraCount).1 k = m.readable now k ∧
      isReserved (m.reserveRead now keys extraCount).1 k = m.readable now k := by
  obtain ⟨r, hr⟩ := L1Manager.keyPass_ret_isSome (d := (L1Error.keyNotExist, none))
    (f := L1Manager.reserveReadKey now (1 + validateExtraCount extraCount)) hk m.objects
  change (m.reserveRead now keys extraCount).1.get? k = some r at hr
  rw [isHit, isReserved, hr, Option.any_some, Option.any_some, L1Manager.readable]
  cases he : m.objects.get? k with
  | none =>
    rw [m.reserveReadPass_absent now keys extraCount he r hr]
    exact ⟨rfl, rfl⟩
  | some e =>
    rw [m.reserveReadPass_spec now keys extraCount he r hr, Option.any_some]
    cases e.availableForRead now <;> exact ⟨rfl, rfl⟩

end LMCache.LookupState

namespace LMCache.Distributed

open L1Manager LookupState

structure PrefetchSubmission (K Λ : Type) where
  requestId : ℕ
  keys : List K
  layoutDesc : Λ
  extraCount : ℤ
deriving DecidableEq

structure StorageManager (K Λ : Type) where
  l1Manager : L1Manager K
  l2Adapters : List AdapterDescriptor
  nextRequestId : ℕ
  submissionQueue : List (PrefetchSubmission K Λ)
  prefetchedEvents : List (List K × List K)

namespace StorageManager

variable {K Λ : Type}

def submitPrefetchRequest (sm : StorageManager K Λ) (keys : List K) (layoutDesc : Λ)
    (extraCount : ℤ) : ℕ × StorageManager K Λ :=
  (sm.nextRequestId,
    { sm with
      nextRequestId := sm.nextRequestId + 1
      submissionQueue := sm.submissionQueue ++ [⟨sm.nextRequestId, keys, layoutDesc, extraCount⟩] })

variable [DecidableEq K]

def submitPrefetchTask (sm : StorageManager K Λ) (now later : ℕ) (keys : List K) (layoutDesc : Λ)
    (extraCount : ℤ) : PrefetchHandle × StorageManager K Λ :=
  let (l1ReadResult, l1) := sm.l1Manager.reserveRead now keys extraCount
  let hits := hitCount l1ReadResult keys
  let skipped := skippedKeys l1ReadResult keys
  let l1 := if skipped.isEmpty then l1 else (l1.finishRead later skipped extraCount).2
  let sm := { sm with
    l1Manager := l1
    prefetchedEvents := sm.prefetchedEvents ++ [(keys.take hits, keys.drop hits)] }
  let remainingKeys := keys.drop hits
  if !remainingKeys.isEmpty && !sm.l2Adapters.isEmpty then
    let (requestId, sm) := sm.submitPrefetchRequest remainingKeys layoutDesc extraCount
    (⟨some requestId, hits, keys.length⟩, sm)
  else (⟨none, hits, keys.length⟩, sm)

def readLocks (m : L1Manager K) (now : ℕ) (k : K) : ℕ :=
  ((m.objects.get? k).map (fun e => e.readLock.held now)).getD 0

def handed (sm sm' : StorageManager K Λ) : List K :=
  (sm'.submissionQueue.drop sm.submissionQueue.length).flatMap PrefetchSubmission.keys

def Lasting (m : L1Manager K) (now later : ℕ) (keys : List K) : Prop :=
  now ≤ later ∧ ∀ k ∈ keys, ∀ e ∈ m.objects.get? k,
    (0 < e.readLock.held now → later < e.readLock.expirationMs) ∧ later < now + e.readLock.ttlMs

instance (m : L1Manager K) (now later : ℕ) (keys : List K) :
    Decidable (Lasting m now later keys) :=
  inferInstanceAs (Decidable (_ ∧ ∀ k ∈ keys, ∀ e ∈ m.objects.get? k, _))

structure KeepsHits (sm sm' : StorageManager K Λ) (now later : ℕ) (keys : List K)
    (hits : ℕ) (locksPerOccurrence : ℤ) (remaining : List K) : Prop where
  longest : hits = (keys.takeWhile (sm.l1Manager.readable now)).length
  locks : ∀ k, (readLocks sm'.l1Manager later k : ℤ) =
    readLocks sm.l1Manager later k + (keys.take hits).count k * locksPerOccurrence
  kept : ∀ k, ∀ e ∈ sm.l1Manager.objects.get? k, e.isTemporary = false →
    ∃ e' ∈ sm'.l1Manager.objects.get? k, e'.memoryObj = e.memoryObj ∧ e'.isTemporary = false
  handed : sm.handed sm' = remaining

variable {m : L1Manager K} {now later : ℕ} {k : K} {keys : List K}

theorem hitCount_reserveRead (m : L1Manager K) (now : ℕ) (keys : List K) (extraCount : ℤ) :
    hitCount (m.reserveRead now keys extraCount).1 keys =
      (keys.takeWhile (m.readable now)).length := by
  have hsame : ∀ ks : List K, ks ⊆ keys →
      ks.takeWhile (isHit (m.reserveRead now keys extraCount).1) =
        ks.takeWhile (m.readable now) := by
    intro ks
    induction ks with
    | nil => exact fun _ => rfl
    | cons key ks ih =>
      intro hsub
      have hkey := (isHit_reserveRead m now extraCount (hsub List.mem_cons_self)).1
      rw [List.takeWhile_cons, List.takeWhile_cons, hkey, ih (List.subset_of_cons_subset hsub)]
  rw [hitCount, hsame keys (List.Subset.refl _)]

theorem count_skippedKeys (m : L1Manager K) (now : ℕ) (keys : List K) (extraCount : ℤ) (k : K) :
    (skippedKeys (m.reserveRead now keys extraCount).1 keys).count k =
      if m.readable now k then
        (keys.drop (keys.takeWhile (m.readable now)).length).count k else 0 := by
  rw [skippedKeys, hitCount_reserveRead]
  by_cases hmem : k ∈ keys
  · have hreserved := (isHit_reserveRead m now extraCount hmem).2
    split_ifs with hread
    · exact List.count_filter (hreserved.trans hread)
    · apply List.count_eq_zero_of_not_mem
      intro hk
      exact hread (hreserved.symm.trans (List.mem_filter.mp hk).2)
  · have hdrop : k ∉ keys.drop (keys.takeWhile (m.readable now)).length :=
      fun hk => hmem (List.mem_of_mem_drop hk)
    rw [List.count_eq_zero_of_not_mem hdrop, ite_self]
    exact List.count_eq_zero_of_not_mem fun hk => hdrop (List.mem_filter.mp hk).1

theorem iterate_finishReadKey {total n : ℕ} (htotal : 0 < total) {e : L1ObjectState}
    (hwrite : e.writeLock.held now = 0) (hheld : (n + 1) * total ≤ e.readLock.held now) :
    (stepEntry (finishReadKey now total))^[n + 1] (some e) =
      if e.isTemporary = true ∧ e.readLock.held now ≤ (n + 1) * total then none
      else some { e with readLock := e.readLock.unlockTimes ((n + 1) * total) } := by
  rw [Nat.succ_mul] at hheld ⊢
  have hbefore := (hits_finishReadKey n hwrite htotal (by omega)).2 (by omega)
  have hleft : (e.readLock.unlockTimes (n * total)).held now = e.readLock.held now - n * total :=
    TTLLock.held_unlockTimes _ _ _
  have hact := finishReadKey_of_held
    (e := { e with readLock := e.readLock.unlockTimes (n * total) }) total hwrite
    (by rw [hleft]; omega)
  rw [Function.iterate_succ_apply', hbefore, stepEntry, hact]
  simp only [hleft]
  by_cases hlast : e.isTemporary = true ∧ e.readLock.held now ≤ n * total + total
  · rw [if_pos hlast, if_pos ⟨hlast.1, by omega⟩]
  · have hlast' : ¬ (e.isTemporary = true ∧ e.readLock.held now - n * total ≤ total) :=
      fun h => hlast ⟨h.1, by omega⟩
    rw [if_neg hlast, if_neg hlast', TTLLock.unlockTimes_add]

variable (sm : StorageManager K Λ)

theorem l1Manager_submitPrefetchTask (now later : ℕ) (keys : List K) (layoutDesc : Λ)
    (extraCount : ℤ) (k : K) :
    (sm.submitPrefetchTask now later keys layoutDesc extraCount).2.l1Manager.objects.get? k =
      (stepEntry (finishReadKey later (1 + validateExtraCount extraCount)))^[
          (skippedKeys (sm.l1Manager.reserveRead now keys extraCount).1 keys).count k]
        ((stepEntry (reserveReadKey now (1 + validateExtraCount extraCount)))^[keys.count k]
          (sm.l1Manager.objects.get? k)) := by
  have hreserve : (sm.l1Manager.reserveRead now keys extraCount).2.objects.get? k =
      (stepEntry (reserveReadKey now (1 + validateExtraCount extraCount)))^[keys.count k]
        (sm.l1Manager.objects.get? k) :=
    (keyPass_count (d := ((.keyNotExist, none) : L1OperationResult)) keys k _).1
  have hfinish : ∀ (m : L1Manager K) (ks : List K),
      (m.finishRead later ks extraCount).2.objects.get? k =
        (stepEntry (finishReadKey later (1 + validateExtraCount extraCount)))^[ks.count k]
          (m.objects.get? k) :=
    fun m ks => (keyPass_count (d := L1Error.keyNotExist) ks k _).1
  rw [← hreserve]
  simp only [submitPrefetchTask, submitPrefetchRequest]
  generalize sm.l1Manager.reserveRead now keys extraCount = reserved
  generalize skippedKeys reserved.1 keys = skipped
  cases skipped with
  | nil =>
    simp only [List.isEmpty_nil, if_true]
    split_ifs <;> rfl
  | cons key rest =>
    simp only [List.isEmpty_cons, Bool.false_eq_true, if_false]
    split_ifs <;> exact hfinish _ _

theorem hits_submitPrefetchTask (now later : ℕ) (keys : List K) (layoutDesc : Λ) (extraCount : ℤ) :
    (sm.submitPrefetchTask now later keys layoutDesc extraCount).1.l1PrefixHitCount =
      (keys.takeWhile (sm.l1Manager.readable now)).length := by
  rw [← hitCount_reserveRead _ _ _ extraCount]
  simp only [submitPrefetchTask, submitPrefetchRequest]
  split_ifs <;> rfl

theorem handed_submitPrefetchTask (now later : ℕ) (keys : List K) (layoutDesc : Λ)
    (extraCount : ℤ) :
    sm.handed (sm.submitPrefetchTask now later keys layoutDesc extraCount).2 =
      if sm.l2Adapters.isEmpty then []
      else keys.drop (keys.takeWhile (sm.l1Manager.readable now)).length := by
  rw [← hitCount_reserveRead _ _ _ extraCount]
  simp only [submitPrefetchTask, submitPrefetchRequest]
  generalize keys.drop (hitCount _ keys) = remaining
  cases hadapters : sm.l2Adapters.isEmpty with
  | true => simp [handed]
  | false =>
    cases remaining with
    | nil => simp [handed]
    | cons key rest => simp [handed]

variable {e : L1ObjectState}

theorem readable_of_get? (he : m.objects.get? k = some e) :
    m.readable now k = e.availableForRead now := by
  rw [readable, he, Option.any_some]

theorem count_take_of_not_readable (hread : m.readable now k = false) :
    (keys.take (keys.takeWhile (m.readable now)).length).count k = 0 := by
  apply List.count_eq_zero_of_not_mem
  intro hk
  rw [← List.prefix_iff_eq_take.mp (List.takeWhile_prefix _)] at hk
  rw [List.mem_takeWhile_imp hk] at hread
  simp at hread

theorem held_reserved {n : ℕ} (hle : now ≤ later) (hlast : later < now + e.readLock.ttlMs) :
    (e.readLock.lockTimes now (n + 1)).held later = e.readLock.held now + (n + 1) := by
  have hlive : 0 < (e.readLock.lockTimes now (n + 1)).counter →
      later < (e.readLock.lockTimes now (n + 1)).expirationMs := by
    intro _
    rw [TTLLock.lockTimes_expirationMs]
    exact hlast
  rw [TTLLock.held_eq_of_le hle hlive, TTLLock.held_lockTimes (n + 1) (by omega)]

theorem reserved_released {total c n : ℕ} (htotal : 0 < total) (hle : now ≤ later)
    (havail : e.availableForRead now = true) (hlast : later < now + e.readLock.ttlMs) (hn : n ≤ c)
    (hc : 0 < c) :
    (∀ e', (stepEntry (finishReadKey later total))^[n]
        (some { e with readLock := e.readLock.lockTimes now (c * total) }) = some e' →
      e'.memoryObj = e.memoryObj ∧ e'.isTemporary = e.isTemporary ∧
        e'.readLock.held later = e.readLock.held now + (c - n) * total) ∧
    ((stepEntry (finishReadKey later total))^[n]
        (some { e with readLock := e.readLock.lockTimes now (c * total) }) = none →
      e.isTemporary = true ∧ e.readLock.held now + (c - n) * total = 0) := by
  have hwrite : e.writeLock.held later = 0 := by
    have hnow : e.writeLock.held now = 0 := by
      rw [← TTLLock.isLocked_eq_false_iff]
      simpa [L1ObjectState.availableForRead] using havail
    have := TTLLock.held_anti hle e.writeLock
    omega
  obtain ⟨p, hp⟩ : ∃ p, c * total = p + 1 :=
    Nat.exists_eq_succ_of_ne_zero (Nat.mul_pos hc htotal).ne'
  have hheld : (e.readLock.lockTimes now (c * total)).held later =
      e.readLock.held now + c * total := by
    rw [hp]
    exact held_reserved hle hlast
  have hmul : n * total ≤ c * total := Nat.mul_le_mul_right total hn
  have hsub : (c - n) * total = c * total - n * total := Nat.sub_mul c n total
  cases n with
  | zero =>
    refine ⟨fun e' he' => ?_, fun h => by simp at h⟩
    obtain rfl := Option.some.inj he'
    exact ⟨rfl, rfl, by rw [hheld, Nat.sub_zero]⟩
  | succ n =>
    have hiter := iterate_finishReadKey (n := n) htotal
      (e := { e with readLock := e.readLock.lockTimes now (c * total) }) hwrite
      (by rw [hheld]; omega)
    rw [hiter]
    split_ifs with hgone
    · simp only [hheld] at hgone
      refine ⟨fun e' he' => by simp at he', fun _ => ⟨hgone.1, ?_⟩⟩
      omega
    · refine ⟨fun e' he' => ?_, fun h => by simp at h⟩
      obtain rfl := Option.some.inj he'
      refine ⟨rfl, rfl, ?_⟩
      simp only [TTLLock.held_unlockTimes, hheld]
      omega

theorem entry_submitPrefetchTask (layoutDesc : Λ) (extraCount : ℤ)
    (hlasting : Lasting sm.l1Manager now later keys) (he : sm.l1Manager.objects.get? k = some e) :
    (∀ e', (sm.submitPrefetchTask now later keys layoutDesc extraCount).2.l1Manager.objects.get? k =
        some e' → e'.memoryObj = e.memoryObj ∧ e'.isTemporary = e.isTemporary ∧
        e'.readLock.held later = e.readLock.held later +
          (keys.take (keys.takeWhile (sm.l1Manager.readable now)).length).count k *
            (1 + validateExtraCount extraCount)) ∧
    ((sm.submitPrefetchTask now later keys layoutDesc extraCount).2.l1Manager.objects.get? k = none →
      e.isTemporary = true ∧ e.readLock.held later +
          (keys.take (keys.takeWhile (sm.l1Manager.readable now)).length).count k *
            (1 + validateExtraCount extraCount) = 0) := by
  have havail : sm.l1Manager.readable now k = e.availableForRead now := readable_of_get? he
  have hsplit : keys.count k =
      (keys.take (keys.takeWhile (sm.l1Manager.readable now)).length).count k +
        (keys.drop (keys.takeWhile (sm.l1Manager.readable now)).length).count k := by
    rw [← List.count_append, List.take_append_drop]
  rw [l1Manager_submitPrefetchTask, count_skippedKeys, he, iterate_reserveReadKey, havail]
  cases hread : e.availableForRead now with
  | false =>
    rw [hread] at havail
    simp only [Bool.false_eq_true, if_false, Function.iterate_zero, id_eq,
      count_take_of_not_readable havail, Nat.zero_mul, Nat.add_zero]
    refine ⟨fun e' he' => ?_, fun h => by simp at h⟩
    obtain rfl := Option.some.inj he'
    exact ⟨rfl, rfl, rfl⟩
  | true =>
    simp only [if_true]
    by_cases hmem : k ∈ keys
    · obtain ⟨hle, hlast⟩ := hlasting
      obtain ⟨hold, hnew⟩ := hlast k hmem e he
      have hsame : e.readLock.held later = e.readLock.held now := by
        rcases Nat.eq_zero_or_pos (e.readLock.held now) with h0 | hpos
        · have := TTLLock.held_anti hle e.readLock
          omega
        · exact TTLLock.held_eq_of_le hle fun _ => hold hpos
      have hcount : keys.count k -
          (keys.drop (keys.takeWhile (sm.l1Manager.readable now)).length).count k =
          (keys.take (keys.takeWhile (sm.l1Manager.readable now)).length).count k := by
        omega
      rw [hsame, ← hcount]
      exact reserved_released (by omega) hle hread hnew (by omega)
        (List.count_pos_iff.mpr hmem)
    · have hnone : keys.count k = 0 := List.count_eq_zero_of_not_mem hmem
      obtain ⟨htake, hdrop⟩ : _ = 0 ∧ _ = 0 := Nat.add_eq_zero_iff.mp (hsplit.symm.trans hnone)
      rw [hnone, htake, hdrop]
      refine ⟨fun e' he' => ?_, fun h => by simp at h⟩
      simp only [Nat.zero_mul, TTLLock.lockTimes, Function.iterate_zero, id_eq,
        Option.some.injEq] at he'
      subst he'
      exact ⟨rfl, rfl, by rw [Nat.zero_mul, Nat.add_zero]⟩

theorem submitPrefetchTask_keepsHits (now later : ℕ) (keys : List K) (layoutDesc : Λ)
    (extraCount : ℤ) (hlasting : Lasting sm.l1Manager now later keys) :
    let answer := sm.submitPrefetchTask now later keys layoutDesc extraCount
    KeepsHits sm answer.2 now later keys answer.1.l1PrefixHitCount
      (1 + validateExtraCount extraCount)
      (if sm.l2Adapters.isEmpty then [] else keys.drop answer.1.l1PrefixHitCount) := by
  intro answer
  have hhits : answer.1.l1PrefixHitCount = (keys.takeWhile (sm.l1Manager.readable now)).length :=
    hits_submitPrefetchTask sm now later keys layoutDesc extraCount
  rw [hhits]
  refine ⟨rfl, fun k => ?_, fun k e he htemp => ?_,
    handed_submitPrefetchTask sm now later keys layoutDesc extraCount⟩
  · cases he : sm.l1Manager.objects.get? k with
    | none =>
      have hread : sm.l1Manager.readable now k = false := by rw [readable, he, Option.any_none]
      have hafter : answer.2.l1Manager.objects.get? k = none := by
        rw [l1Manager_submitPrefetchTask, he, iterate_stepEntry_none, iterate_stepEntry_none]
      rw [count_take_of_not_readable hread, readLocks, readLocks, he, hafter]
      simp
    | some e =>
      obtain ⟨hkept, hgone⟩ := entry_submitPrefetchTask sm layoutDesc extraCount hlasting he
      cases hafter : answer.2.l1Manager.objects.get? k with
      | none =>
        have hzero := (hgone hafter).2
        rw [readLocks, readLocks, he, hafter]
        simp only [Option.map_none, Option.map_some, Option.getD_none, Option.getD_some]
        exact_mod_cast hzero.symm
      | some e' =>
        have hheld := (hkept e' hafter).2.2
        rw [readLocks, readLocks, he, hafter]
        simp only [Option.map_some, Option.getD_some]
        exact_mod_cast hheld
  · obtain ⟨hkept, hgone⟩ := entry_submitPrefetchTask sm layoutDesc extraCount hlasting he
    cases hafter : answer.2.l1Manager.objects.get? k with
    | none =>
      rw [(hgone hafter).1] at htemp
      simp at htemp
    | some e' =>
      obtain ⟨hobj, hkind, _⟩ := hkept e' hafter
      exact ⟨e', rfl, hobj, hkind.trans htemp⟩

def residentEntry (memoryObj : MemoryObj) (isTemporary : Bool) : L1ObjectState :=
  ⟨memoryObj, TTLLock.init 600, TTLLock.init 300, isTemporary⟩

def gapManager : StorageManager ℕ Unit where
  l1Manager := { L1Manager.init 600 300 with
    objects := (Dict.empty.set 1 (residentEntry 0 false)).set 3 (residentEntry 1 true) }
  l2Adapters := [⟨0⟩]
  nextRequestId := 0
  submissionQueue := []
  prefetchedEvents := []

theorem submitPrefetchTask_keepsHits_gap :
    Lasting gapManager.l1Manager 5 9 [1, 1, 2, 3, 1, 3] ∧
      KeepsHits gapManager (gapManager.submitPrefetchTask 5 9 [1, 1, 2, 3, 1, 3] () 1).2 5 9
        [1, 1, 2, 3, 1, 3] 2 2 [2, 3, 1, 3] := by
  have hlasting : Lasting gapManager.l1Manager 5 9 [1, 1, 2, 3, 1, 3] := by decide +kernel
  exact ⟨hlasting, submitPrefetchTask_keepsHits gapManager 5 9 [1, 1, 2, 3, 1, 3] () 1 hlasting⟩

def localManager : StorageManager ℕ Unit := { gapManager with l2Adapters := [] }

theorem not_keepsHits_clampedCount :
    (Lasting gapManager.l1Manager 5 9 [1] ∧
      ¬ KeepsHits gapManager (gapManager.submitPrefetchTask 5 9 [1] () 200).2 5 9 [1] 1
        (1 + 200) []) ∧
    Lasting localManager.l1Manager 5 9 [2] ∧
      ¬ KeepsHits localManager (localManager.submitPrefetchTask 5 9 [2] () 0).2 5 9 [2] 0
        (1 + 0) [2] := by
  refine ⟨⟨by decide +kernel, fun h => ?_⟩, by decide +kernel, fun h => ?_⟩
  · have hlocks := h.locks 1
    revert hlocks
    decide +kernel
  · have hhanded := h.handed
    revert hhanded
    decide +kernel

end StorageManager

end LMCache.Distributed
