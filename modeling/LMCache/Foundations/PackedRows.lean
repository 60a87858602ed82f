import Mathlib.Algebra.BigOperators.Group.List.Basic
import Mathlib.Tactic.Linarith

namespace PackedRows

open List

def cumsumFrom : ℕ → List ℕ → List ℕ
  | _, [] => []
  | acc, x :: xs => (acc + x) :: cumsumFrom (acc + x) xs

variable (xs : List ℕ)

def cumsum : List ℕ := cumsumFrom 0 xs

def shifted : List ℕ := ((cumsum xs).rotateRight 1).set 0 0

def repeatInterleave (xs counts : List ℕ) : List ℕ :=
  (xs.zip counts).flatMap fun p => replicate p.2 p.1

def addArange : List ℕ := xs.zipIdx.map fun p => p.1 + p.2

def gather {B : Type} (xs : List B) (indexes : List ℕ) : Option (List B) :=
  indexes.mapM fun i => xs[i]?

def before (f : ℕ → ℕ) (k : ℕ) : ℕ := ((range k).map f).sum

variable {B : Type} {f : ℕ → ℕ} {k n : ℕ}

@[simp] theorem before_zero (f : ℕ → ℕ) : before f 0 = 0 := rfl

theorem before_succ (f : ℕ → ℕ) (k : ℕ) : before f (k + 1) = before f k + f k := by
  rw [before, range_succ, map_append, sum_append, map_singleton, sum_singleton, before]

theorem before_mono (f : ℕ → ℕ) (h : k ≤ n) : before f k ≤ before f n := by
  induction h with
  | refl => exact Nat.le_refl _
  | step h ih => exact Nat.le_trans ih (by rw [before_succ]; exact Nat.le_add_right _ _)

theorem before_add {g : ℕ → ℕ} {R : ℕ} (h : ∀ i < n, f i + g i = R) (hk : k ≤ n) :
    before f k + before g k = k * R := by
  induction k with
  | zero => simp
  | succ k ih =>
    have hk' := ih (Nat.le_of_succ_le hk)
    have hsum := h k hk
    rw [before_succ, before_succ, Nat.succ_mul]
    omega

theorem length_cumsumFrom (acc : ℕ) (xs : List ℕ) : (cumsumFrom acc xs).length = xs.length := by
  induction xs generalizing acc with
  | nil => rfl
  | cons x xs ih => exact congrArg Nat.succ (ih _)

theorem getElem?_cumsumFrom (acc : ℕ) {xs : List ℕ} {i : ℕ} (h : i < xs.length) :
    (cumsumFrom acc xs)[i]? = some (acc + (xs.take (i + 1)).sum) := by
  induction xs generalizing acc i with
  | nil => exact absurd h (Nat.not_lt_zero i)
  | cons x xs ih =>
    cases i with
    | zero => simp [cumsumFrom]
    | succ i =>
      rw [cumsumFrom, getElem?_cons_succ, ih _ (Nat.lt_of_succ_lt_succ h), take_succ_cons,
        sum_cons, Nat.add_assoc]

theorem sum_take_map_range (f : ℕ → ℕ) (h : k ≤ n) :
    (((range n).map f).take k).sum = before f k := by
  rw [← map_take, take_range, Nat.min_eq_left h, before]

theorem getElem?_cumsum (f : ℕ → ℕ) (h : k < n) :
    (cumsum ((range n).map f))[k]? = some (before f (k + 1)) := by
  rw [cumsum, getElem?_cumsumFrom 0 (by simpa using h), sum_take_map_range f h, Nat.zero_add]

theorem getElem?_rotateRight_one {xs : List ℕ} {i : ℕ} (h : i + 1 < xs.length) :
    (xs.rotateRight 1)[i + 1]? = xs[i]? := by
  have hmod : 1 % xs.length = 1 := Nat.mod_eq_of_lt (by omega)
  rw [rotateRight, if_neg (by omega), hmod, getElem?_append_right (by simp; omega),
    getElem?_take_of_lt (by simp; omega)]
  congr 1
  simp
  omega

theorem length_rotateRight_one : (xs.rotateRight 1).length = xs.length := by
  rw [rotateRight]
  split_ifs
  · rfl
  · rw [length_append, length_drop, length_take]
    omega

theorem shifted_map_range (f : ℕ → ℕ) (n : ℕ) :
    shifted ((range n).map f) = (range n).map (before f) := by
  have hcumsum : (cumsum ((range n).map f)).length = n := by
    rw [cumsum, length_cumsumFrom, length_map, length_range]
  have hlen : (shifted ((range n).map f)).length = n := by
    rw [shifted, length_set, length_rotateRight_one, hcumsum]
  refine ext_getElem? fun i => ?_
  rcases Nat.lt_or_ge i n with hlt | hge
  · rw [getElem?_map, getElem?_range hlt, Option.map_some]
    cases i with
    | zero =>
      rw [shifted, getElem?_set_self (by rwa [length_rotateRight_one, hcumsum])]
      rfl
    | succ i =>
      rw [shifted, getElem?_set_ne (Nat.zero_ne_add_one i),
        getElem?_rotateRight_one (by rwa [hcumsum]),
        getElem?_cumsum f (Nat.lt_of_succ_lt hlt)]
  · rw [getElem?_eq_none (hlen.trans_le hge), getElem?_eq_none (by simpa using hge)]

theorem repeatInterleave_map_range (f g : ℕ → ℕ) (n : ℕ) :
    repeatInterleave ((range n).map f) ((range n).map g) =
      (range n).flatMap fun k => replicate (g k) (f k) := by
  rw [repeatInterleave, zip_map', flatMap_map]

theorem length_flatMap_range {A : Type} {rows : ℕ → List A} (h : ∀ k, (rows k).length = f k) (n : ℕ) :
    ((range n).flatMap rows).length = before f n := by
  rw [length_flatMap, before]
  simp only [h]

theorem addArange_replicate (m g start : ℕ) :
    ((replicate m g).zipIdx start).map (fun p => p.1 + p.2) =
      (range m).map fun j => g + start + j := by
  refine ext_getElem (by simp) fun i h1 h2 => ?_
  simp [Nat.add_assoc]

theorem addArange_rows {len gap : ℕ → ℕ} {R : ℕ} (h : ∀ i < n, gap i + len i = R) (hk : k ≤ n) :
    addArange ((range k).flatMap fun i => replicate (len i) (before gap i)) =
      (range k).flatMap fun i => (range (len i)).map fun j => i * R + j := by
  induction k with
  | zero => rfl
  | succ k ih =>
    have hsum := before_add h (Nat.le_of_succ_le hk)
    have hrow : ((replicate (len k) (before gap k)).zipIdx (before len k)).map
        (fun p => p.1 + p.2) = (range (len k)).map fun j => k * R + j := by
      rw [addArange_replicate, hsum]
    rw [range_succ, flatMap_append, flatMap_append, addArange, zipIdx_append,
      map_append, ← addArange, ih (Nat.le_of_succ_le hk),
      length_flatMap_range (f := len) (fun i => length_replicate) k]
    simp only [flatMap_singleton, Nat.zero_add, hrow]

theorem gather_eq {xs : List B} {indexes : List ℕ} {read : ℕ → B}
    (h : ∀ i ∈ indexes, xs[i]? = some (read i)) : gather xs indexes = some (indexes.map read) := by
  induction indexes with
  | nil => rfl
  | cons i indexes ih =>
    rw [gather, mapM_cons, h i mem_cons_self, ← gather, ih fun j hj => h j (mem_cons_of_mem i hj)]
    rfl

theorem getElem?_flatMap_before {A : Type} {rows : ℕ → List A} (h : ∀ k, (rows k).length = f k)
    (hk : k < n) {j : ℕ} (hj : j < f k) :
    ((range n).flatMap rows)[before f k + j]? = (rows k)[j]? := by
  obtain ⟨m, rfl⟩ := Nat.exists_eq_add_of_lt hk
  rw [Nat.add_assoc, range_add, flatMap_append, getElem?_append_right
    (by rw [length_flatMap_range h]; omega), length_flatMap_range h, Nat.add_sub_cancel_left,
    Nat.add_comm m 1, range_add, map_append, flatMap_append,
    getElem?_append_left]
  · simp
  · simpa [h] using hj

end PackedRows
