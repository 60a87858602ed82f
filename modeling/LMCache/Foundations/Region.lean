import Mathlib.Algebra.BigOperators.Group.List.Basic
import Mathlib.Tactic.Linarith

structure Region where
  start : ℕ
  size : ℕ
deriving DecidableEq, Repr

namespace Region

open List

variable (r : Region)

def stop : ℕ := r.start + r.size

def Contains (x : ℕ) : Prop := r.start ≤ x ∧ x < r.stop

instance (r : Region) (x : ℕ) : Decidable (r.Contains x) :=
  inferInstanceAs (Decidable (_ ∧ _))

def Apart (r s : Region) : Prop := ∀ x, ¬ (r.Contains x ∧ s.Contains x)

def Before (r s : Region) : Prop := r.stop < s.start

variable (rs : List Region)

def multiplicity (x : ℕ) : ℕ := rs.countP (fun r => decide (r.Contains x))

def total : ℕ := (rs.map size).sum

def Chained : ℕ → List Region → Prop
  | _, [] => True
  | a, r :: rs => r.start = a ∧ Chained r.stop rs

instance (a : ℕ) (rs : List Region) : Decidable (Chained a rs) := by
  induction rs generalizing a with
  | nil => exact isTrue trivial
  | cons r rs ih => exact inferInstanceAs (Decidable (_ ∧ _))

@[simp] theorem stop_mk (a n : ℕ) : (⟨a, n⟩ : Region).stop = a + n := rfl

theorem start_le_stop : r.start ≤ r.stop := Nat.le_add_right _ _

@[simp] theorem multiplicity_nil (x : ℕ) : multiplicity [] x = 0 := rfl

theorem multiplicity_cons (x : ℕ) :
    multiplicity (r :: rs) x = multiplicity rs x + if r.Contains x then 1 else 0 := by
  simp [multiplicity, countP_cons]

@[simp] theorem multiplicity_append (rs ss : List Region) (x : ℕ) :
    multiplicity (rs ++ ss) x = multiplicity rs x + multiplicity ss x := by
  simp [multiplicity, countP_append]

variable {rs ss : List Region}

theorem multiplicity_perm (h : rs.Perm ss) (x : ℕ) :
    multiplicity rs x = multiplicity ss x := h.countP_eq _

theorem multiplicity_diff (h : ss.Subperm rs) (x : ℕ) :
    multiplicity (rs.diff ss) x + multiplicity ss x = multiplicity rs x := by
  rw [multiplicity_perm (subperm_append_diff_self_of_count_le
    (fun a _ => h.count_le a)).symm x, multiplicity_append, Nat.add_comm]

@[simp] theorem total_nil : total [] = 0 := rfl

@[simp] theorem total_cons :
    total (r :: rs) = r.size + total rs := by simp [total]

@[simp] theorem total_append (rs ss : List Region) : total (rs ++ ss) = total rs + total ss := by
  simp [total]

theorem total_perm (h : rs.Perm ss) : total rs = total ss :=
  (h.map size).sum_eq

theorem total_diff (h : ss.Subperm rs) : total (rs.diff ss) + total ss = total rs := by
  rw [total_perm (subperm_append_diff_self_of_count_le
    (fun a _ => h.count_le a)).symm, total_append, Nat.add_comm]

theorem multiplicity_chained {a : ℕ} {rs : List Region} (h : Chained a rs) (x : ℕ) :
    multiplicity rs x = if (⟨a, total rs⟩ : Region).Contains x then 1 else 0 := by
  induction rs generalizing a with
  | nil =>
    rw [multiplicity_nil, if_neg]
    simp only [Contains, stop, total_nil]
    omega
  | cons r rs ih =>
    obtain ⟨rfl, hrest⟩ := h
    rw [multiplicity_cons, ih hrest, total_cons]
    split_ifs with h1 h2 h3 h4 h5 <;> simp only [Contains, stop] at * <;> omega

theorem contains_of_multiplicity_pos {rs : List Region} {x : ℕ} :
    0 < multiplicity rs x ↔ ∃ r ∈ rs, r.Contains x := by
  simp [multiplicity, countP_pos_iff]

theorem pairwise_apart {rs : List Region} (h : ∀ x, multiplicity rs x ≤ 1) : rs.Pairwise Apart := by
  induction rs with
  | nil => exact .nil
  | cons r rs ih =>
    refine .cons (fun s hs x hx => ?_) (ih fun x => ?_)
    · have hpos : 0 < multiplicity rs x := contains_of_multiplicity_pos.mpr ⟨s, hs, hx.2⟩
      have hle := h x
      rw [multiplicity_cons, if_pos hx.1] at hle
      omega
    · have hle := h x
      rw [multiplicity_cons] at hle
      omega

theorem Apart.stop_le {r s : Region} (h : Apart r s) (hs : 0 < s.size)
    (hlt : r.start ≤ s.start) : r.stop ≤ s.start := by
  by_contra hc
  refine h s.start ⟨⟨hlt, by omega⟩, le_rfl, ?_⟩
  simp only [stop]
  omega

def Touches (x : ℕ) : Prop := r.start ≤ x ∧ x ≤ r.stop

def Touched (rs : List Region) (x : ℕ) : Prop := ∃ r ∈ rs, r.Touches x

def Contained (rs : List Region) (x : ℕ) : Prop := ∃ r ∈ rs, r.Contains x

theorem touches_start : r.Touches r.start := ⟨le_rfl, start_le_stop r⟩

theorem touched_cons {r : Region} {rs : List Region} {x : ℕ} :
    Touched (r :: rs) x ↔ r.Touches x ∨ Touched rs x := exists_mem_cons_iff _ _ _

theorem contained_cons {r : Region} {rs : List Region} {x : ℕ} :
    Contained (r :: rs) x ↔ r.Contains x ∨ Contained rs x := exists_mem_cons_iff _ _ _

theorem touched_append {x : ℕ} : Touched (rs ++ ss) x ↔ Touched rs x ∨ Touched ss x := by
  simp only [Touched, mem_append, or_and_right, exists_or]

theorem touched_congr (h : ∀ r, r ∈ rs ↔ r ∈ ss) (x : ℕ) :
    Touched rs x ↔ Touched ss x := exists_congr fun r => and_congr_left' (h r)

section Tail

variable {r : Region} {rs : List Region} {x : ℕ}

theorem touched_tail (h : (r :: rs).Pairwise Before) :
    Touched rs x ↔ Touched (r :: rs) x ∧ r.stop < x := by
  rw [touched_cons]
  constructor
  · rintro ⟨s, hs, hx⟩
    have hlt : r.stop < s.start := (pairwise_cons.mp h).1 s hs
    exact ⟨.inr ⟨s, hs, hx⟩, hlt.trans_le hx.1⟩
  · rintro ⟨hx | hx, hlt⟩
    · exact absurd hx.2 (not_le.mpr hlt)
    · exact hx

theorem contained_tail (h : (r :: rs).Pairwise Before) :
    Contained rs x ↔ Contained (r :: rs) x ∧ r.stop < x := by
  rw [contained_cons]
  constructor
  · rintro ⟨s, hs, hx⟩
    have hlt : r.stop < s.start := (pairwise_cons.mp h).1 s hs
    exact ⟨.inr ⟨s, hs, hx⟩, hlt.trans_le hx.1⟩
  · rintro ⟨hx | hx, hlt⟩
    · exact absurd hx.2 (not_lt.mpr hlt.le)
    · exact hx

theorem start_le_of_touched (h : (r :: rs).Pairwise Before) (hx : Touched (r :: rs) x) :
    r.start ≤ x := by
  rcases touched_cons.mp hx with hx | hx
  · exact hx.1
  · exact (start_le_stop r).trans ((touched_tail h).mp hx).2.le

theorem not_contained_stop (h : (r :: rs).Pairwise Before) : ¬ Contained (r :: rs) r.stop := by
  intro hx
  rcases contained_cons.mp hx with hx | hx
  · exact absurd hx.2 (lt_irrefl _)
  · exact absurd ((contained_tail h).mp hx).2 (lt_irrefl _)

theorem stop_le_of_contained {s : Region} {ss : List Region} (h : (r :: rs).Pairwise Before)
    (hstart : s.start = r.start) (hsub : ∀ x, Contained (s :: ss) x → Contained (r :: rs) x) :
    s.stop ≤ r.stop := by
  by_contra hlt
  apply not_contained_stop h
  apply hsub
  refine contained_cons.mpr (.inl ⟨?_, not_le.mp hlt⟩)
  rw [hstart]
  exact start_le_stop r

end Tail

theorem eq_of_touched (hrs : rs.Pairwise Before) (hss : ss.Pairwise Before)
    (htouched : ∀ x, Touched rs x ↔ Touched ss x)
    (hcontained : ∀ x, Contained rs x ↔ Contained ss x) : rs = ss := by
  induction rs generalizing ss with
  | nil =>
    cases ss with
    | nil => rfl
    | cons s ss =>
      obtain ⟨r, hr, _⟩ := (htouched s.start).mpr (touched_cons.mpr (.inl (touches_start s)))
      exact absurd hr not_mem_nil
  | cons r rs ih =>
    cases ss with
    | nil =>
      obtain ⟨s, hs, _⟩ := (htouched r.start).mp (touched_cons.mpr (.inl (touches_start r)))
      exact absurd hs not_mem_nil
    | cons s ss =>
      have hstart : r.start = s.start := by
        apply le_antisymm
        · apply start_le_of_touched hrs
          exact (htouched s.start).mpr (touched_cons.mpr (.inl (touches_start s)))
        · apply start_le_of_touched hss
          exact (htouched r.start).mp (touched_cons.mpr (.inl (touches_start r)))
      have hstop : r.stop = s.stop := by
        apply le_antisymm
        · exact stop_le_of_contained hss hstart fun x => (hcontained x).mp
        · exact stop_le_of_contained hrs hstart.symm fun x => (hcontained x).mpr
      have hsame : r = s := by
        cases r
        cases s
        simp only [stop, Region.mk.injEq] at hstart hstop ⊢
        omega
      subst hsame
      rw [ih (pairwise_cons.mp hrs).2 (pairwise_cons.mp hss).2]
      · intro x
        rw [touched_tail hrs, touched_tail hss, htouched]
      · intro x
        rw [contained_tail hrs, contained_tail hss, hcontained]

theorem touches_chained {a : ℕ} {rs : List Region} (h : Chained a rs) (hne : rs ≠ []) (x : ℕ) :
    (⟨a, total rs⟩ : Region).Touches x ↔ Touched rs x := by
  induction rs generalizing a with
  | nil => exact absurd rfl hne
  | cons r rs ih =>
    obtain ⟨rfl, hrest⟩ := h
    cases rs with
    | nil =>
      rw [touched_cons, or_iff_left (by simp [Touched]), total_cons, total_nil, Nat.add_zero]
    | cons s rs =>
      rw [touched_cons, ← ih hrest (cons_ne_nil _ _)]
      rw [total_cons]
      simp only [Touches, stop]
      omega

end Region
