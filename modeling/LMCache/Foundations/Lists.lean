import Mathlib.Data.List.Basic

namespace Slice

open List

variable {A : Type} (xs : List A)

def slice (start stop : ℕ) : List A := (xs.take stop).drop start

theorem slice_zero (stop : ℕ) : slice xs 0 stop = xs.take stop := drop_zero

theorem slice_all {stop : ℕ} (h : xs.length ≤ stop) : slice xs 0 stop = xs := by
  rw [slice_zero, take_of_length_le h]

theorem length_slice {start stop : ℕ} (h : stop ≤ xs.length) :
    (slice xs start stop).length = stop - start := by
  rw [slice, length_drop, length_take, Nat.min_eq_left h]

theorem slice_append {start middle stop : ℕ} (h1 : start ≤ middle) (h2 : middle ≤ stop) :
    slice xs start middle ++ slice xs middle stop = slice xs start stop := by
  rw [slice, slice, slice, drop_take, drop_take, drop_take,
    show stop - start = middle - start + (stop - middle) by omega, take_add, drop_drop,
    show start + (middle - start) = middle by omega]

theorem getElem?_slice (start stop i : ℕ) :
    (slice xs start stop)[i]? = if start + i < stop then xs[start + i]? else none := by
  rw [slice, getElem?_drop]
  split_ifs with h
  · exact getElem?_take_of_lt h
  · exact getElem?_take_eq_none (by omega)

theorem slice_congr {xs ys : List A} {n start stop : ℕ} (h : xs.take n = ys.take n)
    (hn : stop ≤ n) : slice xs start stop = slice ys start stop := by
  rw [slice, slice, ← Nat.min_eq_left hn, ← take_take, ← take_take, h]

end Slice

namespace Columns

variable {α β : Type}

def minLength : List (List α) → ℕ
  | [] => 0
  | [row] => row.length
  | row :: rows => min row.length (minLength rows)

def zipRows (rows : List (List α)) : List (List α) :=
  (List.range (minLength rows)).map fun i => rows.filterMap fun row => row[i]?

def zipRowsStrict (rows : List (List α)) : Option (List (List α)) :=
  if ∀ row ∈ rows, row.length = minLength rows then some (zipRows rows) else none

theorem minLength_eq {rows : List (List α)} {n : ℕ} (hne : rows ≠ [])
    (h : ∀ row ∈ rows, row.length = n) : minLength rows = n := by
  induction rows with
  | nil => exact absurd rfl hne
  | cons row rows ih =>
    have hrow : row.length = n := h row List.mem_cons_self
    cases rows with
    | nil => exact hrow
    | cons row' rows =>
      rw [minLength, hrow, ih (List.cons_ne_nil _ _) fun r hr => h r (List.mem_cons_of_mem _ hr)]
      · exact Nat.min_self n
      · exact fun heq => nomatch heq

def table (xs : List β) (n : ℕ) (f : β → ℕ → α) : List (List α) :=
  xs.map fun x => (List.range n).map (f x)

variable {xs : List β}

theorem length_of_mem_table {n : ℕ} {f : β → ℕ → α} : ∀ row ∈ table xs n f, row.length = n := by
  intro row hrow
  obtain ⟨x, _, rfl⟩ := List.mem_map.mp hrow
  rw [List.length_map, List.length_range]

theorem table_ne_nil (hne : xs ≠ []) (n : ℕ) (f : β → ℕ → α) : table xs n f ≠ [] :=
  fun heq => hne (List.map_eq_nil_iff.mp heq)

theorem zipRows_table (hne : xs ≠ []) (n : ℕ) (f : β → ℕ → α) :
    zipRows (table xs n f) = (List.range n).map fun i => xs.map fun x => f x i := by
  rw [zipRows, minLength_eq (table_ne_nil hne n f) length_of_mem_table]
  refine List.map_congr_left fun i hi => ?_
  rw [table, List.filterMap_map, ← List.filterMap_eq_map]
  refine List.filterMap_congr fun x _ => ?_
  simp [List.mem_range.mp hi]

theorem zipRowsStrict_table (hne : xs ≠ []) (n : ℕ) (f : β → ℕ → α) :
    zipRowsStrict (table xs n f) = some ((List.range n).map fun i => xs.map fun x => f x i) := by
  rw [zipRowsStrict, if_pos, zipRows_table hne]
  intro row hrow
  rw [minLength_eq (table_ne_nil hne n f) length_of_mem_table]
  exact length_of_mem_table row hrow

theorem getElem?_flatMap_width {f : β → List α} {width : ℕ}
    (hwidth : ∀ x ∈ xs, (f x).length = width) {i j : ℕ} (hj : j < width) :
    (xs.flatMap f)[i * width + j]? = xs[i]?.bind fun x => (f x)[j]? := by
  induction xs generalizing i with
  | nil => rfl
  | cons x xs ih =>
    obtain ⟨hx, hxs⟩ := List.forall_mem_cons.mp hwidth
    rw [List.flatMap_cons]
    cases i with
    | zero =>
      rw [Nat.zero_mul, Nat.zero_add, List.getElem?_append_left (by omega)]
      rfl
    | succ i =>
      rw [Nat.succ_mul, List.getElem?_append_right (by omega), hx,
        show i * width + width + j - width = i * width + j by omega, ih hxs]
      rfl

end Columns

namespace List

theorem countP_range_update {A : Type} (points : ℕ → A) (p : A → Bool) {n i : ℕ} (h : i < n)
    (point : A) :
    (range n).countP (fun t => p (Function.update points i point t)) + (p (points i)).toNat =
      (range n).countP (fun t => p (points t)) + (p point).toNat := by
  have hperm := perm_cons_erase (mem_range.mpr h)
  have hrest : ((range n).erase i).countP (fun t => p (Function.update points i point t)) =
      ((range n).erase i).countP fun t => p (points t) := by
    refine countP_congr fun j hj => ?_
    have hne : j ≠ i := fun heq => (List.Nodup.not_mem_erase nodup_range) (heq ▸ hj)
    rw [Function.update_of_ne hne]
  rw [hperm.countP_eq, hperm.countP_eq, countP_cons, countP_cons, hrest, Function.update_self]
  cases p (points i) <;> cases p point <;> simp

end List
