import LMCache.Distributed.LockLedger

namespace LMCache

open TTLLock L1ObjectState

namespace L1Step

variable {K : Type}

def lockTotal : L1Step K → ℕ
  | .reserveRead _ extraCount | .finishRead _ extraCount | .finishWriteAndReserveRead _ extraCount =>
      1 + validateExtraCount extraCount
  | _ => 0

end L1Step

namespace L1Manager

variable {K R : Type} [DecidableEq K] (m : L1Manager K)

def readGranted (now : ℕ) : L1Step K → List K
  | .reserveRead keys extraCount => (m.reserveReadPass now keys extraCount).successfulKeys
  | .finishWriteAndReserveRead keys extraCount =>
      (m.finishWriteAndReserveReadPass now keys extraCount).successfulKeys
  | _ => []

def readReturned (now : ℕ) : L1Step K → List K
  | .finishRead keys extraCount => (m.finishReadPass now keys extraCount).successfulKeys
  | _ => []

def charge (now : ℕ) (op : L1Step K) (locks : K → ℕ) (k : K) : ℕ :=
  locks k + (m.readGranted now op).count k * op.lockTotal -
    (m.readReturned now op).count k * op.lockTotal

def Backed (now : ℕ) (locks : K → ℕ) (k : K) : Prop :=
  0 < locks k → ∃ r, countsOf m now k = some (0, r) ∧ locks k ≤ r

instance (m : L1Manager K) (now : ℕ) (locks : K → ℕ) (k : K) : Decidable (m.Backed now locks k) :=
  decidable_of_iff (0 < locks k → ∃ c ∈ countsOf m now k, c.1 = 0 ∧ locks k ≤ c.2) <| by
    refine imp_congr_right fun _ => ⟨fun ⟨c, hc, h0, hle⟩ => ⟨c.2, ?_, hle⟩, fun ⟨r, hr, hle⟩ =>
      ⟨(0, r), hr, rfl, hle⟩⟩
    rw [← h0]
    exact hc

variable {m : L1Manager K} {now : ℕ} {k : K} {keys : List K} {locks : K → ℕ} {extraCount : ℤ}

theorem backed_iff : m.Backed now locks k ↔ (0 < locks k → ∃ e, m.objects.get? k = some e ∧
    e.writeLock.held now = 0 ∧ locks k ≤ e.readLock.held now) := by
  refine imp_congr_right fun _ => ?_
  rw [countsOf]
  cases m.objects.get? k <;> simp [counts, and_assoc]

theorem Backed.of_get? {m' : L1Manager K} {locks' : K → ℕ} (h : m.Backed now locks k)
    (hget : m'.objects.get? k = m.objects.get? k) (hlocks : locks' k = locks k) :
    m'.Backed now locks' k := by
  rw [Backed, countsOf, hget, hlocks]
  exact h

theorem Backed.tick {later : ℕ} (h : m.Backed now locks k) (hle : now ≤ later)
    (hlive : 0 < locks k → ∀ e, m.objects.get? k = some e → e.Live later) :
    m.Backed later locks k := by
  intro hpos
  have hcounts : countsOf m later k = countsOf m now k := by
    rw [countsOf, countsOf]
    cases he : m.objects.get? k with
    | none => rfl
    | some e => exact congrArg some (counts_eq_of_le hle (hlive hpos e he))
  rw [hcounts]
  exact h hpos

theorem backed_delete (h : m.Backed now locks k) :
    (m.step now (.delete keys)).Backed now locks k := by
  rw [backed_iff]
  intro hpos
  obtain ⟨e, he, hwrite, hle⟩ := backed_iff.mp h hpos
  have hlocked : e.readLock.isLocked now = true := isLocked_iff.mpr (by omega)
  have hkept : (m.step now (.delete keys)).objects.get? k = m.objects.get? k :=
    keyPass_of_not_succeeds (by simp [he, succeeds, deleteKey, hlocked]) keys
  exact ⟨e, hkept.trans he, hwrite, hle⟩

def readable (m : L1Manager K) (now : ℕ) (k : K) : Bool :=
  (m.objects.get? k).any (availableForRead now)

theorem succeeds_reserveReadKey (now total : ℕ) (o : Option L1ObjectState) :
    succeeds (reserveReadKey now total) o = o.any (availableForRead now) := by
  cases o with
  | none => rfl
  | some e =>
    rw [succeeds, reserveReadKey, Option.any_some]
    cases e.availableForRead now <;> rfl

theorem iterate_reserveReadKey (now total n : ℕ) (e : L1ObjectState) :
    (stepEntry (reserveReadKey now total))^[n] (some e) =
      some (if e.availableForRead now then
        { e with readLock := e.readLock.lockTimes now (n * total) } else e) := by
  induction n generalizing e with
  | zero => simp [lockTimes]
  | succ n ih =>
    rw [Function.iterate_succ_apply, stepEntry, reserveReadKey]
    cases havail : e.availableForRead now with
    | false =>
      simp only [Bool.not_false, if_true]
      rw [ih, havail]
      rfl
    | true =>
      simp only [Bool.not_true, Bool.false_eq_true, if_false]
      have havail' : ({ e with readLock := e.readLock.lockTimes now total } :
        L1ObjectState).availableForRead now = true := havail
      rw [ih, havail', if_pos rfl, if_pos trivial, ← lockTimes_add, Nat.succ_mul, Nat.add_comm]

theorem iterate_stepEntry_none (f : L1ObjectState → Verdict R) (n : ℕ) :
    (stepEntry f)^[n] none = none := Function.iterate_fixed rfl n

theorem hits_reserveReadKey (now total n : ℕ) (o : Option L1ObjectState) :
    hits (reserveReadKey now total) n o =
      if o.any (availableForRead now) then n else 0 := by
  induction n generalizing o with
  | zero => simp [hits]
  | succ n ih =>
    have hsame : (stepEntry (reserveReadKey now total) o).any (availableForRead now) =
        o.any (availableForRead now) := by
      cases o with
      | none => rfl
      | some e =>
        rw [← Function.iterate_one (stepEntry _), iterate_reserveReadKey]
        split_ifs <;> rfl
    rw [hits, ih, hsame, succeeds_reserveReadKey]
    split_ifs <;> omega

theorem count_readGranted_reserveRead (now : ℕ) (keys : List K) (extraCount : ℤ) (k : K) :
    (m.readGranted now (.reserveRead keys extraCount)).count k =
      if m.readable now k then keys.count k else 0 := by
  rw [readGranted, reserveReadPass, (keyPass_count _ _ _).2, hits_reserveReadKey]
  rfl

theorem charge_reserveRead (now : ℕ) (keys : List K) (extraCount : ℤ) (locks : K → ℕ) (k : K) :
    m.charge now (.reserveRead keys extraCount) locks k =
      locks k + if m.readable now k then keys.count k * (1 + validateExtraCount extraCount) else 0 := by
  rw [charge, count_readGranted_reserveRead]
  split_ifs <;> simp [readReturned, L1Step.lockTotal]

theorem backed_reserveRead (hbacked : m.Backed now locks k)
    (hlive : 0 < m.charge now (.reserveRead keys extraCount) locks k →
      ∀ e, (m.step now (.reserveRead keys extraCount)).objects.get? k = some e → e.Live now) :
    (m.step now (.reserveRead keys extraCount)).Backed now
      (m.charge now (.reserveRead keys extraCount) locks) k := by
  have hget := (keyPass_count (d := ((.keyNotExist, none) : L1OperationResult))
    (f := reserveReadKey now (1 + validateExtraCount extraCount)) keys k m.objects).1
  change (m.step now (.reserveRead keys extraCount)).objects.get? k = _ at hget
  rw [charge_reserveRead] at hlive
  rw [backed_iff, charge_reserveRead]
  intro hpos
  have hlocks : ∀ e, m.objects.get? k = some e → locks k ≤ e.readLock.held now := by
    intro e he
    rcases Nat.eq_zero_or_pos (locks k) with h0 | h0
    · omega
    · obtain ⟨e', he', _, hle⟩ := backed_iff.mp hbacked h0
      rwa [Option.some.inj (he.symm.trans he')]
  cases he : m.objects.get? k with
  | none =>
    simp only [readable, he, Option.any_none, Bool.false_eq_true, if_false, Nat.add_zero] at hpos
    obtain ⟨r, hr, _⟩ := hbacked hpos
    simp [countsOf, he] at hr
  | some e =>
    rw [he, iterate_reserveReadKey] at hget
    by_cases havail : e.availableForRead now = true
    · have hread : m.readable now k = true := by rw [readable, he, Option.any_some, havail]
      have hunlocked : e.writeLock.held now = 0 := by
        rw [← isLocked_eq_false_iff]
        simpa [availableForRead] using havail
      rw [if_pos havail] at hget
      rw [if_pos hread] at hlive hpos ⊢
      refine ⟨_, hget, hunlocked, ?_⟩
      have hle := hlocks e he
      cases hn : keys.count k * (1 + validateExtraCount extraCount) with
      | zero => simpa [lockTimes] using hle
      | succ n =>
        rw [hn] at hget hlive
        have hlock := (hlive (by omega) _ hget).2
        rw [held_lockTimes _ (ttlMs_pos_of_lockTimes hlock)]
        omega
    · have hread : m.readable now k = false := by
        rw [readable, he, Option.any_some, Bool.not_eq_true _ |>.mp havail]
      rw [if_neg havail] at hget
      simp only [hread, Bool.false_eq_true, if_false, Nat.add_zero] at hpos ⊢
      obtain ⟨e', he', hunlocked, hle⟩ := backed_iff.mp hbacked hpos
      obtain rfl := Option.some.inj (he.symm.trans he')
      exact ⟨e, hget, hunlocked, hle⟩

theorem finishReadKey_of_held {e : L1ObjectState} (total : ℕ) (hwrite : e.writeLock.held now = 0)
    (hread : 0 < e.readLock.held now) :
    finishReadKey now total e =
      if e.isTemporary = true ∧ e.readLock.held now ≤ total then .drop .success
      else .keep { e with readLock := e.readLock.unlockTimes total } .success := by
  rw [← isLocked_iff] at hread
  rw [← isLocked_eq_false_iff] at hwrite
  simp only [finishReadKey, hwrite, hread, Bool.not_true, Bool.false_eq_true, if_false,
    Bool.and_eq_true, Bool.not_eq_true', isLocked_eq_false_iff, held_unlockTimes,
    Nat.sub_eq_zero_iff_le]

theorem hits_finishReadKey {total : ℕ} (n : ℕ) {e : L1ObjectState} (hwrite : e.writeLock.held now = 0)
    (htotal : 0 < total) (hheld : n * total ≤ e.readLock.held now) :
    hits (finishReadKey now total) n (some e) = n ∧
      (n * total < e.readLock.held now → (stepEntry (finishReadKey now total))^[n] (some e) =
        some { e with readLock := e.readLock.unlockTimes (n * total) }) := by
  induction n generalizing e with
  | zero => simp [hits, unlockTimes]
  | succ n ih =>
    rw [Nat.succ_mul] at hheld ⊢
    have hact := finishReadKey_of_held total hwrite (by omega)
    have hsucceeds : succeeds (finishReadKey now total) (some e) = true := by
      rw [succeeds, hact]
      split_ifs <;> rfl
    rw [hits, hsucceeds, if_pos rfl, Function.iterate_succ_apply, stepEntry, hact]
    split_ifs with hlast
    · obtain rfl : n = 0 := by
        by_contra hn
        have := Nat.mul_le_mul_right total (Nat.pos_of_ne_zero hn)
        omega
      exact ⟨rfl, fun hlt => by omega⟩
    · have hafter : ({ e with readLock := e.readLock.unlockTimes total } :
          L1ObjectState).readLock.held now = e.readLock.held now - total :=
        held_unlockTimes _ _ _
      obtain ⟨hhits, hstate⟩ := ih (e := { e with readLock := e.readLock.unlockTimes total }) hwrite
        (by omega)
      refine ⟨by rw [hhits, Nat.add_comm], fun hlt => ?_⟩
      refine (hstate (by omega)).trans ?_
      rw [Nat.add_comm (n * total), unlockTimes_add]

theorem count_readReturned_finishRead (hbacked : m.Backed now locks k)
    (hheld : keys.count k * (1 + validateExtraCount extraCount) ≤ locks k) :
    (m.readReturned now (.finishRead keys extraCount)).count k = keys.count k := by
  rw [readReturned, finishReadPass, (keyPass_count _ _ _).2]
  rcases Nat.eq_zero_or_pos (keys.count k) with h0 | h0
  · rw [h0, hits]
  · have hpos : 0 < keys.count k * (1 + validateExtraCount extraCount) :=
      Nat.mul_pos h0 (by omega)
    obtain ⟨e, he, hwrite, hle⟩ := backed_iff.mp hbacked (by omega)
    rw [he, (hits_finishReadKey _ hwrite (by omega) (Nat.le_trans hheld hle)).1]

theorem charge_finishRead (hbacked : m.Backed now locks k)
    (hheld : keys.count k * (1 + validateExtraCount extraCount) ≤ locks k) :
    m.charge now (.finishRead keys extraCount) locks k =
        locks k - keys.count k * (1 + validateExtraCount extraCount) ∧
      (m.step now (.finishRead keys extraCount)).Backed now
        (m.charge now (.finishRead keys extraCount) locks) k := by
  have hget := (keyPass_count (d := L1Error.keyNotExist)
    (f := finishReadKey now (1 + validateExtraCount extraCount)) keys k m.objects).1
  change (m.step now (.finishRead keys extraCount)).objects.get? k = _ at hget
  have hcharge : m.charge now (.finishRead keys extraCount) locks k =
      locks k - keys.count k * (1 + validateExtraCount extraCount) := by
    rw [charge, count_readReturned_finishRead hbacked hheld]
    simp [readGranted, L1Step.lockTotal]
  refine ⟨hcharge, backed_iff.mpr fun hpos => ?_⟩
  rw [hcharge] at hpos ⊢
  obtain ⟨e, he, hwrite, hle⟩ := backed_iff.mp hbacked (by omega)
  rw [he, (hits_finishReadKey _ hwrite (by omega) (Nat.le_trans hheld hle)).2 (by omega)] at hget
  refine ⟨_, hget, hwrite, ?_⟩
  rw [held_unlockTimes]
  omega

end L1Manager

end LMCache
