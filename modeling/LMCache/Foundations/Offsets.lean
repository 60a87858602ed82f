import Mathlib.Data.Nat.Bitwise
import Mathlib.Tactic.Ring
import Mathlib.Algebra.BigOperators.Group.List.Basic
import Mathlib.Tactic.Linarith

namespace Alignment

open Nat

theorem ldiff_low_bits (x k : ℕ) : ldiff x (2 ^ k - 1) = 2 ^ k * (x / 2 ^ k) := by
  apply eq_of_testBit_eq
  intro i
  rw [testBit_ldiff, testBit_two_pow_sub_one, testBit_two_pow_mul, testBit_div_two_pow]
  by_cases h : i < k
  · simp [h]
  · have hk : k ≤ i := Nat.le_of_not_lt h
    simp [hk, Nat.sub_add_cancel hk]

theorem add_eq_or {x y : ℕ} (h : x &&& y = 0) : x + y = x ||| y := by
  have hlt : ∀ z ≤ x + y, z < 2 ^ (x + y) := fun z hz => hz.trans_lt Nat.lt_two_pow_self
  have hx : (BitVec.ofNat (x + y) x).toNat = x := mod_eq_of_lt (hlt x (by omega))
  have hy : (BitVec.ofNat (x + y) y).toNat = y := mod_eq_of_lt (hlt y (by omega))
  have hand : BitVec.ofNat (x + y) x &&& BitVec.ofNat (x + y) y = 0#(x + y) := by
    apply BitVec.eq_of_toNat_eq
    rw [BitVec.toNat_and, hx, hy, h, BitVec.toNat_zero]
  have hsum := congrArg BitVec.toNat (BitVec.add_eq_or_of_and_eq_zero _ _ hand)
  rw [BitVec.toNat_add, BitVec.toNat_or, hx, hy, mod_eq_of_lt (hlt _ le_rfl)] at hsum
  exact hsum

theorem ldiff_add_ldiff (x y : ℕ) : ldiff (ldiff x y + y) y = ldiff x y := by
  have hand : ldiff x y &&& y = 0 := by
    apply eq_of_testBit_eq
    intro i
    rw [testBit_and, testBit_ldiff, zero_testBit]
    cases y.testBit i <;> simp
  apply eq_of_testBit_eq
  intro i
  rw [add_eq_or hand, testBit_ldiff, testBit_or, testBit_ldiff]
  cases x.testBit i <;> cases y.testBit i <;> rfl
def roundUp (k raw : ℕ) : ℕ := ldiff (raw + 2 ^ k - 1) (2 ^ k - 1)

theorem dvd_roundUp (k raw : ℕ) : 2 ^ k ∣ roundUp k raw :=
  ⟨_, ldiff_low_bits _ _⟩

theorem le_roundUp (k raw : ℕ) : raw ≤ roundUp k raw := by
  have hpos : 0 < 2 ^ k := Nat.two_pow_pos k
  have hdiv := div_add_mod (raw + 2 ^ k - 1) (2 ^ k)
  have hmod := mod_lt (raw + 2 ^ k - 1) hpos
  rw [roundUp, ldiff_low_bits]
  omega

end Alignment

namespace Offsets

variable {ss rs : List ℕ} (sizes : List ℕ)

def offset (i : ℕ) : ℕ := (sizes.take i).sum

@[simp] theorem offset_zero : offset sizes 0 = 0 := rfl

@[simp] theorem offset_cons_succ (size : ℕ) (sizes : List ℕ) (i : ℕ) :
    offset (size :: sizes) (i + 1) = size + offset sizes i := by
  rw [offset, List.take_succ_cons, List.sum_cons, offset]

theorem offset_succ {i size : ℕ} (h : ss[i]? = some size) : offset ss (i + 1) = offset ss i + size := by
  rw [offset, List.take_add_one, h, Option.toList_some, List.sum_append, List.sum_singleton, offset]

theorem offset_le_succ (i : ℕ) : offset sizes i ≤ offset sizes (i + 1) := by
  rw [offset, offset, List.take_add_one, List.sum_append]
  exact Nat.le_add_right _ _

theorem offset_length : offset sizes sizes.length = sizes.sum := by
  rw [offset, List.take_length]

theorem offset_le_sum (i : ℕ) : offset sizes i ≤ sizes.sum := by
  rw [offset, ← List.sum_take_add_sum_drop sizes i]
  exact Nat.le_add_right _ _

def addUp (sums : List ℕ × ℕ) (size : ℕ) : List ℕ × ℕ := (sums.1 ++ [sums.2 + size], sums.2 + size)

theorem foldl_addUp (sizes passed : List ℕ) (total : ℕ) :
    sizes.foldl addUp (passed, total) =
      (passed ++ (List.range sizes.length).map (fun i => total + offset sizes (i + 1)),
        total + sizes.sum) := by
  induction sizes generalizing passed total with
  | nil => simp
  | cons size sizes ih =>
    rw [List.foldl_cons, addUp, ih, List.length_cons, List.range_succ_eq_map, List.map_cons,
      List.map_map, List.append_assoc, List.singleton_append, List.sum_cons, add_assoc]
    simp [Function.comp_def, add_assoc]

theorem foldl_addUp_zero :
    (sizes.foldl addUp ([0], 0)).1 = (List.range (sizes.length + 1)).map (offset sizes) := by
  rw [foldl_addUp, List.range_succ_eq_map, List.map_cons, List.map_map, offset_zero]
  simp [Function.comp_def]

theorem getElem?_foldl_addUp (i : ℕ) :
    (sizes.foldl addUp ([0], 0)).1[i]? =
      if i ≤ sizes.length then some (offset sizes i) else none := by
  rw [foldl_addUp_zero, List.getElem?_map]
  split_ifs with h
  · rw [List.getElem?_range (Nat.lt_succ_of_le h), Option.map_some]
  · rw [List.getElem?_eq_none (by rw [List.length_range]; omega), Option.map_none]

theorem getLast?_foldl_addUp : (sizes.foldl addUp ([0], 0)).1.getLast? = some sizes.sum := by
  rw [foldl_addUp_zero, List.range_succ, List.map_append, List.map_singleton, List.getLast?_concat,
    offset_length]

theorem offset_of_isPrefix (h : ss <+: rs) {i : ℕ} (hi : i ≤ ss.length) : offset rs i = offset ss i := by
  obtain ⟨ts, rfl⟩ := h
  rw [offset, List.take_append_of_le_length hi, offset]

theorem isPrefix_of_offset (h : ∀ i ≤ ss.length, i ≤ rs.length ∧ offset rs i = offset ss i) :
    ss <+: rs := by
  induction ss generalizing rs with
  | nil => exact List.nil_prefix
  | cons s ss ih =>
    cases rs with
    | nil =>
      have hone := (h 1 (by simp)).1
      simp at hone
    | cons r rs =>
      have hhead : r = s := by simpa [offset] using (h 1 (by simp)).2
      subst hhead
      refine (List.prefix_cons_inj _).mpr (ih fun i hi => ?_)
      obtain ⟨hle, heq⟩ := h (i + 1) (by simpa using hi)
      exact ⟨by simpa using hle, by simpa using heq⟩

end Offsets
