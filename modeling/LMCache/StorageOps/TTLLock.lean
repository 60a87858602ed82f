import Mathlib.Tactic.Common

namespace LMCache

structure TTLLock where
  counter : ℕ
  expirationMs : ℕ
  ttlMs : ℕ
deriving DecidableEq, Repr

namespace TTLLock

def init (ttlSec : ℕ) : TTLLock := ⟨0, 0, ttlSec * 1000⟩

variable (now : ℕ) (l : TTLLock)

def lock : TTLLock :=
  { l with
    counter := if l.expirationMs ≤ now then 1 else l.counter + 1
    expirationMs := now + l.ttlMs }

def unlock : TTLLock := { l with counter := l.counter - 1 }

def isLocked : Bool := decide (0 < l.counter ∧ now < l.expirationMs)

def reset : TTLLock := { l with counter := 0, expirationMs := 0 }

def lockTimes (now : ℕ) : ℕ → TTLLock → TTLLock
  | 0, l => l
  | n + 1, l => lockTimes now n (lock now l)

def unlockTimes : ℕ → TTLLock → TTLLock
  | 0, l => l
  | n + 1, l => unlockTimes n (unlock l)

def held : ℕ := if now < l.expirationMs then l.counter else 0

theorem isLocked_iff {now : ℕ} {l : TTLLock} : l.isLocked now = true ↔ 0 < l.held now := by
  simp only [isLocked, held, decide_eq_true_eq]
  split_ifs with h <;> simp [h]

theorem isLocked_eq_false_iff {now : ℕ} {l : TTLLock} : l.isLocked now = false ↔ l.held now = 0 := by
  rw [← Bool.not_eq_true, isLocked_iff]
  omega

@[simp] theorem held_init (now ttlSec : ℕ) : (init ttlSec).held now = 0 := by simp [held, init]

@[simp] theorem lock_ttlMs : (l.lock now).ttlMs = l.ttlMs := rfl

@[simp] theorem lock_expirationMs : (l.lock now).expirationMs = now + l.ttlMs := rfl

theorem lock_counter_pos : 0 < (l.lock now).counter := by
  simp only [lock]
  split_ifs <;> omega

@[simp] theorem unlock_ttlMs : l.unlock.ttlMs = l.ttlMs := rfl

@[simp] theorem unlock_expirationMs : l.unlock.expirationMs = l.expirationMs := rfl

@[simp] theorem held_unlock : l.unlock.held now = l.held now - 1 := by
  by_cases h : now < l.expirationMs <;> simp [held, unlock, h]

theorem held_lock {now : ℕ} {l : TTLLock} (h : 0 < l.ttlMs) :
    (l.lock now).held now = l.held now + 1 := by
  by_cases hexp : now < l.expirationMs
  · simp [held, lock, h, hexp, Nat.not_le.mpr hexp]
  · simp [held, lock, h, hexp, Nat.not_lt.mp hexp]

theorem lockTimes_add (now n m : ℕ) (l : TTLLock) :
    l.lockTimes now (n + m) = (l.lockTimes now n).lockTimes now m := by
  induction n generalizing l with
  | zero => rw [Nat.zero_add, lockTimes]
  | succ n ih => rw [Nat.succ_add, lockTimes, lockTimes, ih]

theorem unlockTimes_add (n m : ℕ) (l : TTLLock) :
    l.unlockTimes (n + m) = (l.unlockTimes n).unlockTimes m := by
  induction n generalizing l with
  | zero => rw [Nat.zero_add, unlockTimes]
  | succ n ih => rw [Nat.succ_add, unlockTimes, unlockTimes, ih]

theorem lockTimes_succ (now n : ℕ) (l : TTLLock) :
    l.lockTimes now (n + 1) = (l.lockTimes now n).lock now := by
  induction n generalizing l with
  | zero => rfl
  | succ n ih => exact ih (l.lock now)

@[simp] theorem lockTimes_ttlMs (now n : ℕ) (l : TTLLock) :
    (l.lockTimes now n).ttlMs = l.ttlMs := by
  induction n generalizing l with
  | zero => rfl
  | succ n ih => rw [lockTimes, ih, lock_ttlMs]

theorem lockTimes_expirationMs (now n : ℕ) (l : TTLLock) :
    (l.lockTimes now (n + 1)).expirationMs = now + l.ttlMs := by
  induction n generalizing l with
  | zero => rfl
  | succ n ih => rw [lockTimes, ih, lock_ttlMs]

theorem held_lockTimes {now : ℕ} {l : TTLLock} (n : ℕ) (h : 0 < l.ttlMs) :
    (l.lockTimes now n).held now = l.held now + n := by
  induction n generalizing l with
  | zero => rfl
  | succ n ih =>
    rw [lockTimes, ih (l := l.lock now) h, held_lock h]
    omega

@[simp] theorem unlockTimes_ttlMs (n : ℕ) (l : TTLLock) : (l.unlockTimes n).ttlMs = l.ttlMs := by
  induction n generalizing l with
  | zero => rfl
  | succ n ih => rw [unlockTimes, ih, unlock_ttlMs]

@[simp] theorem unlockTimes_expirationMs (n : ℕ) (l : TTLLock) :
    (l.unlockTimes n).expirationMs = l.expirationMs := by
  induction n generalizing l with
  | zero => rfl
  | succ n ih => rw [unlockTimes, ih, unlock_expirationMs]

theorem held_unlockTimes (now n : ℕ) (l : TTLLock) :
    (l.unlockTimes n).held now = l.held now - n := by
  induction n generalizing l with
  | zero => rfl
  | succ n ih =>
    rw [unlockTimes, ih, held_unlock]
    omega

theorem held_anti {now later : ℕ} (h : now ≤ later) (l : TTLLock) : l.held later ≤ l.held now := by
  simp only [held]
  split_ifs <;> omega

end TTLLock

end LMCache
