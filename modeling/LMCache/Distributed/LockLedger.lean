import LMCache.Distributed.L1WriteReservation

namespace LMCache

open TTLLock

namespace L1Step

variable {K : Type}

def keys : L1Step K → List K
  | .advance _ => []
  | .reserveRead keys _ => keys
  | .unsafeRead _ => []
  | .finishRead keys _ => keys
  | .reserveWrite _ keys _ _ => keys
  | .finishWrite keys => keys
  | .finishWriteAndReserveRead keys _ => keys
  | .delete keys => keys
  | .clear _ => []

def Touches (op : L1Step K) (k : K) : Prop :=
  match op with
  | .clear _ => True
  | op => k ∈ op.keys

def Closing : L1Step K → Prop
  | .finishRead keys _ => keys.Nodup
  | .finishWrite keys => keys.Nodup
  | .finishWriteAndReserveRead keys _ => keys.Nodup
  | .delete keys => keys.Nodup
  | _ => False

theorem Closing.not_touches {op : L1Step K} (hop : op.Closing) {k : K} (hk : k ∉ op.keys) :
    ¬ op.Touches k := by
  cases op with
  | clear force => exact hop.elim
  | _ => exact hk

instance [DecidableEq K] (op : L1Step K) (k : K) : Decidable (op.Touches k) :=
  match op with
  | .clear _ => .isTrue trivial
  | .advance _ => inferInstanceAs (Decidable (k ∈ []))
  | .unsafeRead _ => inferInstanceAs (Decidable (k ∈ []))
  | .reserveRead keys _ | .finishRead keys _ | .reserveWrite _ keys _ _ | .finishWrite keys
  | .finishWriteAndReserveRead keys _ | .delete keys => inferInstanceAs (Decidable (k ∈ keys))

theorem le_tick (op : L1Step K) (now : ℕ) : now ≤ op.tick now := by
  cases op <;> simp [tick]

end L1Step

def L1ObjectState.Live (now : ℕ) (e : L1ObjectState) : Prop :=
  (0 < e.writeLock.counter → now < e.writeLock.expirationMs) ∧
    (0 < e.readLock.counter → now < e.readLock.expirationMs)

instance (now : ℕ) (e : L1ObjectState) : Decidable (e.Live now) :=
  inferInstanceAs (Decidable ((_ → _) ∧ (_ → _)))

namespace TTLLock

theorem held_eq_of_le {now later : ℕ} {l : TTLLock} (hle : now ≤ later)
    (hlive : 0 < l.counter → later < l.expirationMs) : l.held later = l.held now := by
  simp only [held]
  rcases Nat.eq_zero_or_pos l.counter with h0 | hpos
  · simp [h0]
  · have := hlive hpos
    rw [if_pos this, if_pos (by omega)]

theorem lockTimes_counter_pos (now n : ℕ) (l : TTLLock) :
    0 < (l.lockTimes now (n + 1)).counter := by
  rw [lockTimes_succ]
  exact lock_counter_pos now _

theorem ttlMs_pos_of_lockTimes {now n : ℕ} {l : TTLLock}
    (hlive : 0 < (l.lockTimes now (n + 1)).counter → now < (l.lockTimes now (n + 1)).expirationMs) :
    0 < l.ttlMs := by
  have := hlive (lockTimes_counter_pos now n l)
  rw [lockTimes_expirationMs] at this
  omega

end TTLLock

namespace L1Manager

variable {K : Type} {now : ℕ} {e : L1ObjectState}

def counts (now : ℕ) (e : L1ObjectState) : ℕ × ℕ := (e.writeLock.held now, e.readLock.held now)

def book : L1Step K → ℕ × ℕ → Option (ℕ × ℕ)
  | .finishWrite _, (w, r) => if 0 < w ∧ r = 0 then some (w - 1, r) else some (w, r)
  | .finishWriteAndReserveRead _ extraCount, (w, r) =>
      if 0 < w ∧ r = 0 then some (w - 1, r + (1 + validateExtraCount extraCount)) else some (w, r)
  | .finishRead _ extraCount, (w, r) =>
      if w = 0 ∧ 0 < r then
        if r ≤ 1 + validateExtraCount extraCount then none
        else some (w, r - (1 + validateExtraCount extraCount))
      else some (w, r)
  | .delete _, (w, r) => if w = 0 ∧ r = 0 then none else some (w, r)
  | _, (w, r) => some (w, r)

theorem finishWriteKey_eq (now : ℕ) (e : L1ObjectState) :
    finishWriteKey now e =
      if 0 < e.writeLock.held now ∧ e.readLock.held now = 0 then
        .keep { e with writeLock := e.writeLock.unlock } .success
      else .refuse .keyInWrongState := by
  simp only [finishWriteKey, Bool.not_eq_true', isLocked_eq_false_iff, isLocked_iff]
  split_ifs <;> first | rfl | omega

theorem finishWriteAndReserveReadKey_eq (now total : ℕ) (e : L1ObjectState) :
    finishWriteAndReserveReadKey now total e =
      if 0 < e.writeLock.held now ∧ e.readLock.held now = 0 then
        .keep
          { e with
            writeLock := e.writeLock.unlock
            readLock := e.readLock.lockTimes now total }
          (.success, some e.memoryObj)
      else .refuse (.keyInWrongState, none) := by
  simp only [finishWriteAndReserveReadKey, Bool.not_eq_true', isLocked_eq_false_iff, isLocked_iff]
  split_ifs <;> first | rfl | omega

theorem finishReadKey_eq (htemp : e.isTemporary = true) (now total : ℕ) :
    finishReadKey now total e =
      if e.writeLock.held now = 0 ∧ 0 < e.readLock.held now then
        if e.readLock.held now ≤ total then .drop .success
        else .keep { e with readLock := e.readLock.unlockTimes total } .success
      else .refuse .keyInWrongState := by
  simp only [finishReadKey, htemp, Bool.true_and, Bool.not_eq_true', isLocked_eq_false_iff,
    isLocked_iff, held_unlockTimes]
  split_ifs <;> first | rfl | omega

theorem deleteKey_eq (now : ℕ) (e : L1ObjectState) :
    deleteKey now e =
      if e.writeLock.held now = 0 ∧ e.readLock.held now = 0 then .drop .success
      else .refuse .keyIsLocked := by
  simp only [deleteKey, Bool.or_eq_true, isLocked_iff]
  split_ifs <;> first | rfl | omega

def Books {R : Type} (now : ℕ) (act : L1ObjectState → Verdict R) (op : L1Step K)
    (e : L1ObjectState) : Prop :=
  (stepEntry act (some e)).map (counts now) = book op (counts now e) ∧
    ∀ e', stepEntry act (some e) = some e' → e'.isTemporary = e.isTemporary

variable (keys : List K)

theorem books_finishWrite : Books now (finishWriteKey now) (.finishWrite keys) e := by
  rw [Books, stepEntry, finishWriteKey_eq, book]
  by_cases h : 0 < e.writeLock.held now ∧ e.readLock.held now = 0
  · simp [counts, h]
  · simp [counts, h]

theorem books_finishWriteAndReserveRead (extraCount : ℤ)
    (hlive : ∀ e', stepEntry (finishWriteAndReserveReadKey now (1 + validateExtraCount extraCount))
      (some e) = some e' → e'.Live now) :
    Books now (finishWriteAndReserveReadKey now (1 + validateExtraCount extraCount))
      (.finishWriteAndReserveRead keys extraCount) e := by
  rw [stepEntry, finishWriteAndReserveReadKey_eq] at hlive
  rw [Books, stepEntry, finishWriteAndReserveReadKey_eq, book]
  by_cases h : 0 < e.writeLock.held now ∧ e.readLock.held now = 0
  · rw [if_pos h] at hlive
    have hlock := (hlive _ rfl).2
    rw [Nat.add_comm 1] at hlock ⊢
    simp [counts, h, held_lockTimes _ (ttlMs_pos_of_lockTimes hlock)]
  · simp [counts, h]

theorem books_finishRead (extraCount : ℤ) (htemp : e.isTemporary = true) :
    Books now (finishReadKey now (1 + validateExtraCount extraCount))
      (.finishRead keys extraCount) e := by
  rw [Books, stepEntry, finishReadKey_eq htemp, book]
  by_cases h : e.writeLock.held now = 0 ∧ 0 < e.readLock.held now
  · by_cases hlast : e.readLock.held now ≤ 1 + validateExtraCount extraCount
    · simp [counts, h, hlast]
    · simp [counts, h, hlast, held_unlockTimes]
  · simp [counts, h]

theorem books_delete : Books now (deleteKey now) (.delete keys) e := by
  rw [Books, stepEntry, deleteKey_eq, book]
  by_cases h : e.writeLock.held now = 0 ∧ e.readLock.held now = 0
  · simp [counts, h]
  · simp [counts, h]

theorem counts_eq_of_le {later : ℕ} (hle : now ≤ later) (hlive : e.Live later) :
    counts later e = counts now e := by
  rw [counts, counts, held_eq_of_le hle hlive.1, held_eq_of_le hle hlive.2]

theorem counts_newEntry {m : L1Manager K} {i : ℕ} {isTemp : Bool}
    (hlive : (newEntry m now i isTemp).Live now) : counts now (newEntry m now i isTemp) = (1, 0) := by
  have hlt := hlive.1 (lock_counter_pos now _)
  have hpos : 0 < (TTLLock.init m.writeTtlSeconds).ttlMs := by
    change now < now + _ at hlt
    omega
  have hheld : ((TTLLock.init m.writeTtlSeconds).lock now).held now = _ := TTLLock.held_lock hpos
  rw [held_init] at hheld
  exact Prod.ext hheld (held_init now m.readTtlSeconds)

variable [DecidableEq K] {m : L1Manager K} {k : K} {op : L1Step K}

theorem step_of_not_touches (h : ¬ op.Touches k) :
    (m.step now op).objects.get? k = m.objects.get? k := by
  cases op with
  | advance ms => rfl
  | reserveRead keys extraCount => exact (keyPass_of_not_mem h _).1
  | unsafeRead keys => rfl
  | finishRead keys extraCount => exact (keyPass_of_not_mem h _).1
  | reserveWrite granted keys isTemporary mode =>
    exact m.reserveWrite_of_not_mem now granted isTemporary mode h
  | finishWrite keys => exact (keyPass_of_not_mem h _).1
  | finishWriteAndReserveRead keys extraCount => exact (keyPass_of_not_mem h _).1
  | delete keys => exact (keyPass_of_not_mem h _).1
  | clear force => exact absurd trivial h

def countsOf (m : L1Manager K) (now : ℕ) (k : K) : Option (ℕ × ℕ) :=
  (m.objects.get? k).map (counts now)

def settle (k : K) (c : Option (ℕ × ℕ)) (op : L1Step K) : Option (ℕ × ℕ) :=
  if k ∈ op.keys then c.bind (book op) else c

theorem settle_of_not_mem (h : k ∉ op.keys) (c : Option (ℕ × ℕ)) :
    settle k c op = c := if_neg h

theorem settle_none (op : L1Step K) : settle k none op = none := by
  simp only [settle, Option.bind_none, ite_self]

theorem settle_of_books {R : Type} {absent : R} {act : L1ObjectState → Verdict R}
    (hnodup : op.keys.Nodup) (hk : k ∈ op.keys)
    (hstep : (m.step now op).objects = (keyPass absent act m.objects op.keys).objects)
    (htemp : ∀ e, m.objects.get? k = some e → e.isTemporary = true)
    (hbooks : ∀ e, m.objects.get? k = some e →
      (m.step now op).objects.get? k = stepEntry act (some e) → Books now act op e) :
    countsOf (m.step now op) now k = settle k (countsOf m now k) op ∧
      ∀ e, (m.step now op).objects.get? k = some e → e.isTemporary = true := by
  have hget := (keyPass_of_mem (d := absent) (f := act) hnodup hk m.objects).1
  rw [← hstep] at hget
  rw [settle, if_pos hk, countsOf, countsOf]
  cases he : m.objects.get? k with
  | none =>
    rw [he] at hget
    rw [hget]
    exact ⟨rfl, fun e h => by simp [stepEntry] at h⟩
  | some e =>
    rw [he] at hget
    obtain ⟨hcounts, hkeep⟩ := hbooks e he hget
    rw [hget]
    exact ⟨hcounts, fun e' he' => (hkeep e' he').trans (htemp e he)⟩

theorem counts_step (hop : op.Closing)
    (htemp : ∀ e, m.objects.get? k = some e → e.isTemporary = true)
    (hlive : ∀ e, (m.step now op).objects.get? k = some e → e.Live now) :
    countsOf (m.step now op) now k = settle k (countsOf m now k) op ∧
      ∀ e, (m.step now op).objects.get? k = some e → e.isTemporary = true := by
  by_cases hk : k ∈ op.keys
  · cases op with
    | finishRead keys extraCount =>
      exact settle_of_books hop hk rfl htemp fun e he _ =>
        books_finishRead keys extraCount (htemp e he)
    | finishWrite keys =>
      exact settle_of_books hop hk rfl htemp fun e _ _ => books_finishWrite keys
    | finishWriteAndReserveRead keys extraCount =>
      exact settle_of_books hop hk rfl htemp fun e _ hget =>
        books_finishWriteAndReserveRead keys extraCount fun e' he' => hlive e' (hget.trans he')
    | delete keys => exact settle_of_books hop hk rfl htemp fun e _ _ => books_delete keys
    | advance ms => exact hop.elim
    | reserveRead keys extraCount => exact hop.elim
    | unsafeRead keys => exact hop.elim
    | reserveWrite granted keys isTemporary mode => exact hop.elim
    | clear force => exact hop.elim
  · rw [settle_of_not_mem hk, countsOf, step_of_not_touches (hop.not_touches hk)]
    exact ⟨rfl, htemp⟩

end L1Manager

end LMCache
