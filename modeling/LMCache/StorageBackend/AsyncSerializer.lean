import LMCache.Foundations.Execution
import Mathlib.Algebra.BigOperators.Group.Multiset.Basic
import Mathlib.Algebra.Order.BigOperators.Group.Multiset
import Mathlib.Algebra.Order.Ring.Nat

namespace LMCache

open Nat

structure WeightedSemaphore where
  chunkBudgetCap : ℕ
  currentChunks : ℤ
  deriving DecidableEq, Repr

structure AsyncMultiSerializer where
  sem : WeightedSemaphore
  waiting : Multiset ℕ
  loading : Multiset ℕ

inductive SerializerEvent where
  | run (numChunks : ℕ)
  | acquire (numChunks : ℕ)
  | release (numChunks : ℕ)
  deriving DecidableEq, Repr

namespace WeightedSemaphore

variable (sem : WeightedSemaphore)

def concurrentBudgetCap : ℕ := sem.chunkBudgetCap / 2

def init (chunkBudget : ℕ) : WeightedSemaphore := ⟨chunkBudget, (chunkBudget / 2 : ℕ)⟩

def Grants (n : ℕ) : Prop :=
  if n ≤ sem.concurrentBudgetCap then n ≤ sem.currentChunks
  else sem.currentChunks = sem.concurrentBudgetCap

instance (sem : WeightedSemaphore) (n : ℕ) : Decidable (sem.Grants n) :=
  inferInstanceAs (Decidable (ite _ _ _))

def acquire (n : ℕ) : WeightedSemaphore :=
  if n ≤ sem.concurrentBudgetCap then { sem with currentChunks := sem.currentChunks - n }
  else { sem with currentChunks := 0 }

def release (n : ℕ) : WeightedSemaphore :=
  if n ≤ sem.concurrentBudgetCap then { sem with currentChunks := sem.currentChunks + n }
  else { sem with currentChunks := sem.concurrentBudgetCap }

inductive Holders (sem : WeightedSemaphore) : Multiset ℕ → Prop
  | shared {held : Multiset ℕ} (small : ∀ n ∈ held, n ≤ sem.concurrentBudgetCap)
      (free : 0 ≤ sem.currentChunks)
      (counted : sem.currentChunks + held.sum = sem.concurrentBudgetCap) : Holders sem held
  | exclusive {n : ℕ} {rest : Multiset ℕ} (large : sem.concurrentBudgetCap < n)
      (fits : n ≤ sem.chunkBudgetCap) (taken : sem.currentChunks = 0)
      (empty : ∀ m ∈ rest, m = 0) : Holders sem (n ::ₘ rest)

variable {sem : WeightedSemaphore} {held : Multiset ℕ} {n : ℕ}

theorem cap_acquire (sem : WeightedSemaphore) (n : ℕ) :
    (sem.acquire n).chunkBudgetCap = sem.chunkBudgetCap := by
  rw [acquire]
  split_ifs <;> rfl

theorem cap_release (sem : WeightedSemaphore) (n : ℕ) :
    (sem.release n).chunkBudgetCap = sem.chunkBudgetCap := by
  rw [release]
  split_ifs <;> rfl

theorem sum_eq_zero (h : ∀ m ∈ held, m = 0) : held.sum = 0 :=
  Multiset.sum_eq_zero_iff.mpr h

theorem holders_init (chunkBudget : ℕ) : Holders (init chunkBudget) 0 :=
  .shared (fun n h => absurd h (Multiset.notMem_zero n)) (Int.natCast_nonneg _)
    (by simp [init, concurrentBudgetCap])

theorem Holders.sum_of_full (h : Holders sem held)
    (hfull : sem.currentChunks = sem.concurrentBudgetCap) (hcap : 0 < sem.concurrentBudgetCap) :
    held.sum = 0 := by
  cases h with
  | shared small free counted => omega
  | exclusive large fits taken empty => omega

theorem Holders.acquire_small (h : Holders sem held) (hsmall : n ≤ sem.concurrentBudgetCap)
    (hgrants : n ≤ sem.currentChunks) : Holders (sem.acquire n) (n ::ₘ held) := by
  have heq : sem.acquire n = { sem with currentChunks := sem.currentChunks - n } := if_pos hsmall
  rw [heq]
  cases h with
  | shared small free counted =>
    apply Holders.shared
    · intro m hm
      rcases Multiset.mem_cons.mp hm with rfl | hm
      · exact hsmall
      · exact small m hm
    · exact Int.sub_nonneg_of_le hgrants
    · rw [Multiset.sum_cons]
      change sem.currentChunks - n + ((n + held.sum : ℕ) : ℤ) = sem.concurrentBudgetCap
      omega
  | @exclusive large rest hlarge fits taken empty =>
    have hzero : n = 0 := by omega
    rw [Multiset.cons_swap]
    refine .exclusive hlarge fits ?_ ?_
    · change sem.currentChunks - n = 0
      omega
    · intro m hm
      rcases Multiset.mem_cons.mp hm with rfl | hm
      · exact hzero
      · exact empty m hm

theorem Holders.acquire_large (h : held.sum = 0) (hlarge : sem.concurrentBudgetCap < n)
    (hfits : n ≤ sem.chunkBudgetCap) : Holders (sem.acquire n) (n ::ₘ held) := by
  have heq : sem.acquire n = { sem with currentChunks := 0 } := if_neg (not_le.mpr hlarge)
  rw [heq]
  exact .exclusive hlarge hfits rfl (Multiset.sum_eq_zero_iff.mp h)

theorem Holders.release (h : Holders sem (n ::ₘ held)) : Holders (sem.release n) held := by
  generalize hall : n ::ₘ held = all at h
  cases h with
  | shared small free counted =>
    subst hall
    have hsmall := small n (Multiset.mem_cons_self n held)
    have heq : sem.release n = { sem with currentChunks := sem.currentChunks + n } := if_pos hsmall
    rw [heq]
    apply Holders.shared
    · exact fun m hm => small m (Multiset.mem_cons_of_mem hm)
    · exact Int.add_nonneg free (Int.natCast_nonneg n)
    · rw [Multiset.sum_cons] at counted
      change sem.currentChunks + n + held.sum = sem.concurrentBudgetCap
      omega
  | @exclusive large rest hlarge fits taken empty =>
    rcases Multiset.cons_eq_cons.mp hall with ⟨rfl, rfl⟩ | ⟨_, others, hheld, hrest⟩
    · have heq : sem.release n = { sem with currentChunks := sem.concurrentBudgetCap } :=
        if_neg (not_le.mpr hlarge)
      rw [heq]
      apply Holders.shared
      · intro m hm
        rw [empty m hm]
        exact zero_le _
      · exact Int.natCast_nonneg _
      · rw [sum_eq_zero empty]
        exact add_zero _
    · have hzero : n = 0 := empty n (hrest ▸ Multiset.mem_cons_self n others)
      have heq : sem.release n = { sem with currentChunks := sem.currentChunks + n } :=
        if_pos (hzero ▸ zero_le _)
      rw [heq, hheld]
      refine .exclusive hlarge fits ?_ ?_
      · change sem.currentChunks + n = 0
        omega
      · exact fun m hm => empty m (hrest ▸ Multiset.mem_cons_of_mem hm)

end WeightedSemaphore

namespace AsyncMultiSerializer

open Execution WeightedSemaphore

def start (chunkBudget : ℕ) : AsyncMultiSerializer := ⟨.init chunkBudget, 0, 0⟩

variable (s : AsyncMultiSerializer)

def run (numChunks : ℕ) : AsyncMultiSerializer :=
  if s.sem.chunkBudgetCap < numChunks then s else { s with waiting := numChunks ::ₘ s.waiting }

def acquire (s : AsyncMultiSerializer) (numChunks : ℕ) : AsyncMultiSerializer :=
  if numChunks ∈ s.waiting ∧ s.sem.Grants numChunks then
    { sem := s.sem.acquire numChunks
      waiting := s.waiting.erase numChunks
      loading := numChunks ::ₘ s.loading }
  else s

def release (s : AsyncMultiSerializer) (numChunks : ℕ) : AsyncMultiSerializer :=
  if numChunks ∈ s.loading then
    { s with sem := s.sem.release numChunks, loading := s.loading.erase numChunks }
  else s

def exec : SerializerEvent → AsyncMultiSerializer
  | .run numChunks => s.run numChunks
  | .acquire numChunks => s.acquire numChunks
  | .release numChunks => s.release numChunks

structure WithinBudget (s : AsyncMultiSerializer) : Prop where
  total : s.loading.sum ≤ s.sem.chunkBudgetCap
  alone : ∀ n ∈ s.loading, s.sem.concurrentBudgetCap < n → ∀ m ∈ s.loading.erase n, m = 0
  counter : 0 ≤ s.sem.currentChunks ∧ s.sem.currentChunks ≤ s.sem.concurrentBudgetCap
  idle : s.loading.sum = 0 → s.sem.currentChunks = s.sem.concurrentBudgetCap

def TakesAlone : SerializerEvent → Prop
  | .acquire numChunks => s.sem.chunkBudgetCap = 1 → 0 < numChunks → numChunks ∈ s.waiting →
      s.loading.sum = 0
  | _ => True

structure Accounted (chunkBudget : ℕ) (s : AsyncMultiSerializer) : Prop where
  cap : s.sem.chunkBudgetCap = chunkBudget
  waiting : ∀ n ∈ s.waiting, n ≤ chunkBudget
  holders : Holders s.sem s.loading

variable {chunkBudget : ℕ} {s : AsyncMultiSerializer}

theorem accounted_start (chunkBudget : ℕ) : Accounted chunkBudget (start chunkBudget) :=
  ⟨rfl, fun n h => absurd h (Multiset.notMem_zero n), holders_init chunkBudget⟩

theorem withinBudget_of_holders (h : Holders s.sem s.loading) : WithinBudget s := by
  obtain ⟨sem, waiting, loading⟩ := s
  have hhalf : sem.concurrentBudgetCap ≤ sem.chunkBudgetCap := div_le_self _ 2
  change Holders sem loading at h
  cases h with
  | shared small free counted =>
    refine ⟨?_, ?_, ?_, ?_⟩
    · change loading.sum ≤ sem.chunkBudgetCap
      omega
    · exact fun n hn hlarge => absurd (small n hn) (not_le.mpr hlarge)
    · change 0 ≤ sem.currentChunks ∧ sem.currentChunks ≤ sem.concurrentBudgetCap
      omega
    · intro hzero
      change sem.currentChunks = sem.concurrentBudgetCap
      change loading.sum = 0 at hzero
      omega
  | @exclusive large rest hlarge fits taken empty =>
    have hsum : (large ::ₘ rest).sum = large := by
      rw [Multiset.sum_cons, sum_eq_zero empty, add_zero]
    refine ⟨hsum.trans_le fits, ?_, ?_, ?_⟩
    · intro n hn hn'
      have heq : n = large := by
        rcases Multiset.mem_cons.mp hn with heq | hrest
        · exact heq
        · exact absurd (empty n hrest) (ne_of_gt (zero_lt_of_lt hn'))
      rw [heq]
      exact fun m hm => empty m (Multiset.erase_cons_head large rest ▸ hm)
    · change 0 ≤ sem.currentChunks ∧ sem.currentChunks ≤ sem.concurrentBudgetCap
      omega
    · intro hzero
      exact absurd (hsum.symm.trans hzero) (ne_of_gt (zero_lt_of_lt hlarge))

theorem Accounted.run (h : Accounted chunkBudget s) (numChunks : ℕ) :
    Accounted chunkBudget (s.run numChunks) := by
  rw [AsyncMultiSerializer.run]
  split_ifs with hmany
  · exact h
  · refine ⟨h.cap, ?_, h.holders⟩
    intro n hn
    rcases Multiset.mem_cons.mp hn with rfl | hn
    · exact h.cap ▸ not_lt.mp hmany
    · exact h.waiting n hn

theorem Accounted.release (h : Accounted chunkBudget s) (numChunks : ℕ) :
    Accounted chunkBudget (s.release numChunks) := by
  rw [AsyncMultiSerializer.release]
  split_ifs with hheld
  · refine ⟨(cap_release s.sem numChunks).trans h.cap, h.waiting, ?_⟩
    have hholders := h.holders
    rw [← Multiset.cons_erase hheld] at hholders
    exact hholders.release
  · exact h

theorem Accounted.acquire (h : Accounted chunkBudget s) {numChunks : ℕ}
    (halone : TakesAlone s (.acquire numChunks)) : Accounted chunkBudget (s.acquire numChunks) := by
  rw [AsyncMultiSerializer.acquire]
  split_ifs with hgranted
  · obtain ⟨hwaiting, hgrants⟩ := hgranted
    refine ⟨(cap_acquire s.sem numChunks).trans h.cap,
      fun n hn => h.waiting n (Multiset.mem_of_mem_erase hn), ?_⟩
    rw [Grants] at hgrants
    split_ifs at hgrants with hsmall
    · exact h.holders.acquire_small hsmall hgrants
    · have hlarge := not_le.mp hsmall
      have hfits : numChunks ≤ s.sem.chunkBudgetCap := h.cap ▸ h.waiting numChunks hwaiting
      refine .acquire_large ?_ hlarge hfits
      rcases Nat.eq_zero_or_pos s.sem.concurrentBudgetCap with hzero | hhalf
      · have hone : s.sem.chunkBudgetCap = 1 := by
          rw [concurrentBudgetCap] at hzero hlarge
          omega
        exact halone hone (zero_lt_of_lt hlarge) hwaiting
      · exact h.holders.sum_of_full hgrants hhalf
  · exact h

theorem takesAlone_of_total (h : Accounted chunkBudget s) {numChunks : ℕ}
    (hwithin : WithinBudget (s.acquire numChunks)) : TakesAlone s (.acquire numChunks) := by
  intro hone hpositive hwaiting
  have hcap : s.sem.concurrentBudgetCap = 0 := by rw [concurrentBudgetCap, hone]
  have hcurrent : s.sem.currentChunks = s.sem.concurrentBudgetCap := by
    have hcounter := (withinBudget_of_holders h.holders).counter
    omega
  have hgrants : s.sem.Grants numChunks := by
    rw [Grants, if_neg (by omega)]
    exact hcurrent
  have hacquire : s.acquire numChunks =
      ⟨s.sem.acquire numChunks, s.waiting.erase numChunks, numChunks ::ₘ s.loading⟩ :=
    if_pos ⟨hwaiting, hgrants⟩
  have htotal := hwithin.total
  rw [hacquire] at htotal
  change (numChunks ::ₘ s.loading).sum ≤ (s.sem.acquire numChunks).chunkBudgetCap at htotal
  rw [Multiset.sum_cons, cap_acquire, hone] at htotal
  omega

theorem withinBudget_step_iff (h : Accounted chunkBudget s)
    (event : SerializerEvent) : WithinBudget (s.exec event) ↔ TakesAlone s event := by
  cases event with
  | run numChunks => exact iff_of_true (withinBudget_of_holders (h.run numChunks).holders) trivial
  | acquire numChunks =>
    constructor
    · exact takesAlone_of_total h
    · exact fun halone => withinBudget_of_holders (h.acquire halone).holders
  | release numChunks =>
    exact iff_of_true (withinBudget_of_holders (h.release numChunks).holders) trivial

theorem Accounted.exec (h : Accounted chunkBudget s) {event : SerializerEvent}
    (halone : TakesAlone s event) : Accounted chunkBudget (s.exec event) := by
  cases event with
  | run numChunks => exact h.run numChunks
  | acquire numChunks => exact h.acquire halone
  | release numChunks => exact h.release numChunks

theorem withinBudget_iff (chunkBudget : ℕ) (events : List SerializerEvent) :
    Along exec (fun s event => WithinBudget (s.exec event)) (start chunkBudget) events ↔
      Along exec TakesAlone (start chunkBudget) events :=
  along_iff_along (Q := fun _ _ => True) (I := Accounted chunkBudget)
    (fun _ _ h _ halone => h.exec halone)
    (fun _ event h _ => withinBudget_step_iff h event) (accounted_start chunkBudget)
    (along_of_forall (fun _ _ => trivial) _ _)

def twoOfOne : List SerializerEvent := [.run 1, .run 1, .acquire 1, .acquire 1]

theorem not_withinBudget_one :
    ¬ Along exec (fun s event => WithinBudget (s.exec event)) (start 1) twoOfOne := by
  rintro ⟨_, _, _, hwithin, _⟩
  exact absurd hwithin.total (by decide)

end AsyncMultiSerializer

end LMCache
