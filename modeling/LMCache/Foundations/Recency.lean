import Mathlib.Data.List.Dedup

namespace Recency

open List

variable {K : Type}

section Touch

variable [DecidableEq K] {order : List K}

def touch (order : List K) (key : K) : List K := order.erase key ++ [key]

theorem nodup_touch (h : order.Nodup) (key : K) : (touch order key).Nodup :=
  (h.erase key).append (nodup_singleton key) (disjoint_singleton.mpr h.not_mem_erase)

theorem foldl_touch (h : order.Nodup) (keys : List K) :
    keys.foldl touch order = order.filter (fun k => k ∉ keys) ++ keys.dedup := by
  induction keys generalizing order with
  | nil => simp
  | cons key keys ih =>
    rw [foldl_cons, ih (nodup_touch h key), touch, h.erase_eq_filter, filter_append, filter_filter]
    have hrest : order.filter (fun k => decide (k ∉ keys) && (k != key)) =
        order.filter (fun k => k ∉ key :: keys) := by
      refine filter_congr fun k _ => ?_
      rw [Bool.eq_iff_iff]
      simp only [Bool.and_eq_true, decide_eq_true_eq, bne_iff_ne, mem_cons]
      tauto
    rw [hrest, append_assoc]
    by_cases hmem : key ∈ keys
    · rw [dedup_cons_of_mem hmem]
      simp [hmem]
    · rw [dedup_cons_of_notMem hmem]
      simp [hmem]

theorem pairwise_dedup (keys : List K) :
    keys.dedup.Pairwise fun a b => keys.reverse.idxOf b < keys.reverse.idxOf a := by
  induction keys with
  | nil => exact .nil
  | cons key keys ih =>
    have hold : ∀ k ∈ keys.dedup, (key :: keys).reverse.idxOf k = keys.reverse.idxOf k := by
      intro k hk
      rw [reverse_cons, idxOf_append_of_mem (mem_reverse.mpr (mem_dedup.mp hk))]
    have hrest : keys.dedup.Pairwise fun a b =>
        (key :: keys).reverse.idxOf b < (key :: keys).reverse.idxOf a := by
      refine List.Pairwise.imp_of_mem (fun ha hb hlt => ?_) ih
      rw [hold _ ha, hold _ hb]
      exact hlt
    by_cases hmem : key ∈ keys
    · rw [dedup_cons_of_mem hmem]
      exact hrest
    · rw [dedup_cons_of_notMem hmem]
      refine pairwise_cons.mpr ⟨fun k hk => ?_, hrest⟩
      have hlt : keys.reverse.idxOf k < keys.reverse.length :=
        idxOf_lt_length_of_mem (mem_reverse.mpr (mem_dedup.mp hk))
      have hnew : keys.reverse.length ≤ (key :: keys).reverse.idxOf key := by
        rw [reverse_cons, idxOf_append_of_notMem (by rwa [mem_reverse])]
        exact Nat.le_add_right _ _
      rw [hold k hk]
      exact Nat.lt_of_lt_of_le hlt hnew

end Touch

section Respects

variable {R : K → K → Prop} {order : List K}

def Respects (R : K → K → Prop) (order : List K) : Prop := order.Pairwise fun a b => ¬ R a b

theorem Respects.take (h : Respects R order) (n : ℕ) {a b : K} (ha : a ∈ order.take n)
    (hb : b ∈ order) (hab : R a b) : b ∈ order.take n := by
  rw [← take_append_drop n order] at h hb
  rcases mem_append.mp hb with hb | hb
  · exact hb
  · exact absurd hab ((pairwise_append.mp h).2.2 a ha b hb)

theorem respects_of_take (hnodup : order.Nodup)
    (h : ∀ n < order.length, 0 < n → ∀ a ∈ order.take n, ∀ b ∈ order, R a b → b ∈ order.take n) :
    Respects R order := by
  refine pairwise_iff_getElem.mpr fun i j hi hj hij hab => ?_
  have ha : order[i] ∈ order.take (i + 1) :=
    mem_take_iff_getElem.mpr ⟨i, by omega, rfl⟩
  have hb := h (i + 1) (by omega) i.succ_pos _ ha _ (getElem_mem hj) hab
  obtain ⟨m, hm, heq⟩ := mem_take_iff_getElem.mp hb
  have hmj : m = j := (hnodup.getElem_inj_iff).mp heq
  omega

end Respects

end Recency
