import LMCache.Foundations.Lists
import Mathlib.Algebra.BigOperators.Intervals
import Mathlib.Tactic.Ring

namespace HashChain

open List

variable {H A : Type}

def running (step : H → A → H) : H → List A → List H
  | _, [] => []
  | h, a :: as => step h a :: running step (step h a) as

theorem running_eq (step : H → A → H) (h : H) (as : List A) :
    running step h as = (range as.length).map (fun i => (as.take (i + 1)).foldl step h) := by
  induction as generalizing h with
  | nil => rfl
  | cons a as ih =>
    rw [running, ih, length_cons, range_succ_eq_map, map_cons, map_map]
    rfl

structure CollisionFree (step : H → A → H) (init : H) : Prop where
  inj : ∀ h a h' a', step h a = step h' a' → h = h' ∧ a = a'
  fresh : ∀ h a, step h a ≠ init

variable {step : H → A → H} {init : H}

theorem CollisionFree.foldl_eq_iff (hfree : CollisionFree step init) (as bs : List A) :
    as.foldl step init = bs.foldl step init ↔ as = bs := by
  refine ⟨fun heq => ?_, congrArg _⟩
  induction as using reverseRecOn generalizing bs with
  | nil =>
    induction bs using reverseRecOn with
    | nil => rfl
    | append_singleton bs b _ =>
      rw [foldl_concat] at heq
      exact absurd heq.symm (hfree.fresh _ _)
  | append_singleton as a ih =>
    induction bs using reverseRecOn with
    | nil =>
      rw [foldl_concat] at heq
      exact absurd heq (hfree.fresh _ _)
    | append_singleton bs b _ =>
      rw [foldl_concat, foldl_concat] at heq
      obtain ⟨hlead, hlast⟩ := hfree.inj _ _ _ _ heq
      rw [ih bs hlead, hlast]

theorem foldl_eq_iff_of_length (hinj : ∀ h a h' a', step h a = step h' a' → h = h' ∧ a = a')
    {as bs : List A} (hlen : as.length = bs.length) (h h' : H) :
    as.foldl step h = bs.foldl step h' ↔ h = h' ∧ as = bs := by
  induction as generalizing bs h h' with
  | nil =>
    obtain rfl := length_eq_zero_iff.mp hlen.symm
    simp
  | cons a as ih =>
    obtain ⟨b, bs, rfl⟩ := exists_cons_of_length_eq_add_one hlen.symm
    rw [foldl_cons, foldl_cons, ih (Nat.succ.inj hlen), cons.injEq, ← and_assoc]
    refine and_congr_left fun _ => ⟨hinj h a h' b, ?_⟩
    rintro ⟨rfl, rfl⟩
    rfl

end HashChain

namespace RollingHash

variable {R : Type} [CommRing R]

def polyHash (base : R) (xs : List R) : R := xs.foldl (fun h x => h * base + x) 0

def roll (base power : R) : R → List (R × R) → List R
  | _, [] => []
  | h, (old, new) :: rest =>
      ((h - old * power) * base + new) :: roll base power ((h - old * power) * base + new) rest

def rollingHashes (base : R) (k : ℕ) (xs : List R) : List R :=
  polyHash base (xs.take k) ::
    roll base (base ^ (k - 1)) (polyHash base (xs.take k)) (xs.zip (xs.drop k))

theorem foldl_eq (base h : R) (xs : List R) :
    xs.foldl (fun h x => h * base + x) h = h * base ^ xs.length + polyHash base xs := by
  induction xs generalizing h with
  | nil => simp [polyHash]
  | cons x xs ih =>
    rw [polyHash, List.foldl_cons, List.foldl_cons, ih, ih (0 * base + x), List.length_cons]
    ring

theorem polyHash_cons (base x : R) (xs : List R) :
    polyHash base (x :: xs) = x * base ^ xs.length + polyHash base xs := by
  rw [polyHash, List.foldl_cons, foldl_eq]
  ring

theorem polyHash_concat (base x : R) (xs : List R) :
    polyHash base (xs ++ [x]) = polyHash base xs * base + x := by
  rw [polyHash, List.foldl_concat]
  rfl

theorem polyHash_eq_sum (base : R) (xs : List R) :
    polyHash base xs = ∑ i ∈ Finset.range xs.length, xs.getD i 0 * base ^ (xs.length - 1 - i) := by
  induction xs with
  | nil => rfl
  | cons x xs ih =>
    rw [polyHash_cons, List.length_cons, Finset.sum_range_succ', add_comm, ih]
    congr 1
    apply Finset.sum_congr rfl
    intro i _
    rw [List.getD_cons_succ, show xs.length + 1 - 1 - (i + 1) = xs.length - 1 - i by omega]

variable {A : Type}

def windows (k : ℕ) (xs : List A) : List (List A) :=
  (List.range (xs.length + 1 - k)).map fun p => Slice.slice xs p (p + k)

theorem windows_cons (k : ℕ) (x : A) (xs : List A) (h : k ≤ xs.length + 1) :
    windows k (x :: xs) = (x :: xs).take k :: windows k xs := by
  rw [windows, windows, List.length_cons,
    show xs.length + 1 + 1 - k = xs.length + 1 - k + 1 by omega, List.range_succ_eq_map,
    List.map_cons, List.map_map, Slice.slice, Nat.zero_add, List.drop_zero]
  refine congrArg _ (List.map_congr_left fun p _ => ?_)
  rw [Function.comp_apply, Slice.slice, Slice.slice, Nat.succ_eq_add_one,
    show p + 1 + k = p + k + 1 by omega, List.take_succ_cons, List.drop_succ_cons]

theorem windows_of_lt {k : ℕ} {xs : List A} (h : xs.length < k) : windows k xs = [] := by
  rw [windows, Nat.sub_eq_zero_of_le h, List.range_zero, List.map_nil]

theorem rolled_eq (base x new : R) (xs : List R) :
    (polyHash base (x :: xs) - x * base ^ xs.length) * base + new = polyHash base (xs ++ [new]) := by
  rw [polyHash_cons, polyHash_concat]
  ring

theorem rollingHashes_eq (base : R) {k : ℕ} (hpos : 0 < k) {xs : List R} (h : k ≤ xs.length) :
    rollingHashes base k xs = (windows k xs).map (polyHash base) := by
  induction xs with
  | nil => exact absurd h (Nat.not_le.mpr hpos)
  | cons x xs ih =>
    rw [windows_cons k x xs h, List.map_cons]
    rcases Nat.eq_or_lt_of_le h with hlast | hmore
    · rw [windows_of_lt (by rw [List.length_cons] at hlast; omega), rollingHashes, hlast,
        List.drop_length, List.zip_nil_right]
      rfl
    · have hle : k ≤ xs.length := Nat.lt_succ_iff.mp hmore
      obtain ⟨j, rfl⟩ : ∃ j, k = j + 1 := ⟨k - 1, by omega⟩
      have hdrop : xs.drop j = xs[j] :: xs.drop (j + 1) := List.drop_eq_getElem_cons hle
      have htake : xs.take (j + 1) = xs.take j ++ [xs[j]] := List.take_succ_eq_append_getElem hle
      have hlength : (xs.take j).length = j := List.length_take_of_le (by omega)
      have hrolled := rolled_eq base x xs[j] (xs.take j)
      rw [hlength, ← htake] at hrolled
      rw [← ih hle, rollingHashes, rollingHashes, List.take_succ_cons, List.drop_succ_cons, hdrop,
        List.zip_cons_cons, roll, Nat.add_sub_cancel, hrolled]

end RollingHash
