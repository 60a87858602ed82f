import Mathlib.Algebra.Order.BigOperators.Group.List
import Mathlib.Tactic.Linarith

namespace Turns

open List

variable {C L : Type} {calls : List C} {i : ℕ} {c c' : C}

def tally (f : C → ℤ) (calls : List C) : ℤ := (calls.map f).sum

@[simp] theorem tally_nil (f : C → ℤ) : tally f [] = 0 := rfl

theorem tally_snoc (f : C → ℤ) (calls : List C) (c : C) :
    tally f (calls ++ [c]) = tally f calls + f c := by
  rw [tally, map_append, sum_append, map_singleton, sum_singleton, tally]

theorem tally_set (f : C → ℤ) (h : calls[i]? = some c) (c' : C) :
    tally f (calls.set i c') = tally f calls - f c + f c' := by
  obtain ⟨hlt, hget⟩ := List.getElem?_eq_some_iff.mp h
  have hlt' : i < (calls.map f).length := by rwa [length_map]
  rw [tally, map_set, sum_set', dif_pos hlt', getElem_map, hget, tally]
  omega

theorem tally_le {f g : C → ℤ} (hle : ∀ c, f c ≤ g c) (calls : List C) :
    tally f calls ≤ tally g calls := sum_le_sum fun c _ => hle c

theorem tally_lt {f g : C → ℤ} (hle : ∀ c, f c ≤ g c) (hmem : c ∈ calls) (hlt : f c < g c) :
    tally f calls < tally g calls := sum_lt_sum f g (fun c _ => hle c) ⟨c, hmem, hlt⟩

variable {f : C → ℤ}

theorem tally_nonneg (hnonneg : ∀ c, 0 ≤ f c) (calls : List C) : 0 ≤ tally f calls :=
  sum_nonneg (forall_mem_map.mpr fun c _ => hnonneg c)

theorem le_tally (hnonneg : ∀ c, 0 ≤ f c) (hmem : c ∈ calls) : f c ≤ tally f calls :=
  single_le_sum (forall_mem_map.mpr fun c _ => hnonneg c) _ (mem_map_of_mem hmem)

theorem tally_map {g : C → C} (h : ∀ c, f (g c) = f c) (calls : List C) :
    tally f (calls.map g) = tally f calls := by
  rw [tally, map_map, tally, show f ∘ g = f from funext h]

theorem tally_replicate (h : f c = 0) (n : ℕ) : tally f (replicate n c) = 0 := by
  simp [tally, h]

theorem exists_pos_of_tally (h : 0 < tally f calls) : ∃ c ∈ calls, 0 < f c := by
  by_contra hno
  push Not at hno
  have hle : tally f calls ≤ (calls.map fun _ => (0 : ℤ)).sum := sum_le_sum hno
  have hzero : (calls.map fun _ => (0 : ℤ)).sum = 0 := sum_eq_zero (by simp)
  omega

theorem tally_eq_countP {p q : C → Bool}
    (h : ∀ c ∈ calls, f c = (if p c then 1 else 0) - (if q c then 1 else 0)) :
    tally f calls = calls.countP p - calls.countP q := by
  induction calls with
  | nil => rfl
  | cons c calls ih =>
    rw [tally, map_cons, sum_cons, h c mem_cons_self, ← tally,
      ih fun d hd => h d (mem_cons_of_mem c hd), countP_cons, countP_cons]
    split_ifs <;> omega

theorem filterMap_set {label : C → Option L} (h : calls[i]? = some c) (hlabel : label c' = label c) :
    (calls.set i c').filterMap label = calls.filterMap label := by
  obtain ⟨hlt, hget⟩ := List.getElem?_eq_some_iff.mp h
  have hmap : (calls.set i c').map label = calls.map label := by
    rw [map_set, hlabel, ← hget, ← getElem_map label (h := by rwa [length_map]), set_getElem_self]
  have hcompose : ∀ calls : List C, calls.filterMap label = (calls.map label).filterMap id := by
    intro calls
    rw [filterMap_map, Function.id_comp]
  rw [hcompose, hmap, ← hcompose]

theorem mem_set_self (h : calls[i]? = some c) (c' : C) : c' ∈ calls.set i c' :=
  List.mem_set (List.getElem?_eq_some_iff.mp h).1 c'

theorem mem_set_of_ne (h : calls[i]? = some c) (c' : C) {d : C} (hd : d ∈ calls) (hne : d ≠ c) :
    d ∈ calls.set i c' := by
  obtain ⟨j, hj⟩ := mem_iff_getElem?.mp hd
  refine mem_iff_getElem?.mpr ⟨j, ?_⟩
  rw [getElem?_set_ne, hj]
  rintro rfl
  rw [h] at hj
  exact hne (Option.some.inj hj).symm

end Turns
