import Mathlib.Data.List.Induction
import Mathlib.Data.List.Nodup

namespace Cells

open Function List

variable {V : Type}

def write (f : ℕ → V) (cells : List (ℕ × V)) : ℕ → V :=
  cells.foldl (fun f cell => update f cell.1 cell.2) f

@[simp] theorem write_nil (f : ℕ → V) : write f [] = f := rfl

@[simp] theorem write_cons (f : ℕ → V) (cell : ℕ × V) (cells : List (ℕ × V)) :
    write f (cell :: cells) = write (update f cell.1 cell.2) cells := rfl

variable {cells : List (ℕ × V)} {f : ℕ → V}

theorem write_of_notMem {i : ℕ} (h : i ∉ cells.map Prod.fst) : write f cells i = f i := by
  induction cells generalizing f with
  | nil => rfl
  | cons cell cells ih =>
    rw [map_cons, mem_cons, not_or] at h
    rw [write_cons, ih h.2, update_of_ne h.1]

theorem write_of_mem (hnodup : (cells.map Prod.fst).Nodup) {cell : ℕ × V} (h : cell ∈ cells) :
    write f cells cell.1 = cell.2 := by
  induction cells generalizing f with
  | nil => exact absurd h not_mem_nil
  | cons first cells ih =>
    rw [map_cons, nodup_cons] at hnodup
    rcases mem_cons.mp h with rfl | hrest
    · rw [write_cons, write_of_notMem hnodup.1, update_self]
    · rw [write_cons, ih hnodup.2 hrest]

variable {I : Type} [DecidableEq I] {entries : I → Option V} {i j : I} {v w : V}

theorem update_eq_some (h : update entries i (some v) j = some w) :
    j = i ∧ w = v ∨ j ≠ i ∧ entries j = some w := by
  by_cases heq : j = i
  · rw [heq, update_self] at h
    exact .inl ⟨heq, (Option.some.inj h).symm⟩
  · rw [update_of_ne heq] at h
    exact .inr ⟨heq, h⟩

theorem update_none_eq_some (h : update entries i none j = some w) : entries j = some w := by
  by_cases heq : j = i
  · rw [heq, update_self] at h
    cases h
  · rwa [update_of_ne heq] at h

theorem update_eq_none (h : update entries i (some v) j = none) : j ≠ i ∧ entries j = none := by
  have hne : j ≠ i := by
    rintro rfl
    rw [update_self] at h
    cases h
  exact ⟨hne, (update_of_ne hne _ _).symm.trans h⟩

def collect (cells : List (I × V)) : I → Option V :=
  cells.foldl (fun f cell => update f cell.1 (some cell.2)) fun _ => none

theorem collect_append (cells : List (I × V)) (cell : I × V) :
    collect (cells ++ [cell]) = update (collect cells) cell.1 (some cell.2) :=
  foldl_append

theorem mem_of_collect {cells : List (I × V)} (h : collect cells i = some v) : (i, v) ∈ cells := by
  induction cells using reverseRecOn with
  | nil => cases h
  | append_singleton cells cell ih =>
    rw [collect_append] at h
    rcases update_eq_some h with ⟨rfl, rfl⟩ | ⟨_, hrest⟩
    · exact mem_append_right cells mem_cons_self
    · exact mem_append_left _ (ih hrest)

theorem collect_ne_none {cells : List (I × V)} (h : (i, v) ∈ cells) : collect cells i ≠ none := by
  induction cells using reverseRecOn with
  | nil => cases h
  | append_singleton cells cell ih =>
    intro hnone
    rw [collect_append] at hnone
    obtain ⟨hne, hrest⟩ := update_eq_none hnone
    rcases mem_append.mp h with hmem | hmem
    · exact ih hmem hrest
    · exact hne (congrArg Prod.fst (mem_singleton.mp hmem))

end Cells

namespace ByteDevice

variable (device : ℕ → UInt8)

def write (start : ℕ) (bytes : List UInt8) (address : ℕ) : UInt8 :=
  if start ≤ address then bytes.getD (address - start) (device address) else device address

def read (start length : ℕ) : List UInt8 :=
  (List.range length).map fun i => device (start + i)

theorem length_read (start length : ℕ) : (read device start length).length = length := by
  rw [read, List.length_map, List.length_range]

theorem take_read {start n length : ℕ} (h : n ≤ length) :
    (read device start length).take n = read device start n := by
  rw [read, ← List.map_take, List.take_range, Nat.min_eq_left h, read]

theorem read_congr {device device' : ℕ → UInt8} {start length : ℕ}
    (h : ∀ i < length, device (start + i) = device' (start + i)) :
    read device start length = read device' start length :=
  List.map_congr_left fun i hi => h i (List.mem_range.mp hi)

theorem read_write_apart {start start' length : ℕ} {bytes : List UInt8}
    (h : start + bytes.length ≤ start' ∨ start' + length ≤ start) :
    read (write device start bytes) start' length = read device start' length := by
  refine read_congr fun i hi => ?_
  rw [write]
  split
  · rcases h with hbelow | habove
    · rw [List.getD_eq_getElem?_getD, List.getElem?_eq_none (by omega), Option.getD_none]
    · omega
  · rfl

theorem read_write_self (start : ℕ) (data padding : List UInt8) :
    read (write device start (data ++ padding)) start data.length = data := by
  refine List.ext_getElem (length_read _ _ _) fun i hi hi' => ?_
  simp only [read, List.getElem_map, List.getElem_range]
  rw [write, if_pos (Nat.le_add_right start i), Nat.add_sub_cancel_left,
    List.getD_eq_getElem?_getD, List.getElem?_append_left hi', List.getElem?_eq_getElem hi',
    Option.getD_some]

end ByteDevice
