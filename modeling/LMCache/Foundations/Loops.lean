import Mathlib.Data.List.Range
import Mathlib.Data.List.Infix

namespace Loops

open List

variable {S A : Type}

def forRange (start count : ℕ) (body : S → ℕ → Option S) (s : S) : Option S :=
  (range' start count).foldlM body s

def write (xs : List A) (i : ℕ) (x : A) : Option (List A) :=
  if i < xs.length then some (xs.set i x) else none

theorem forRange_succ (start count : ℕ) (body : S → ℕ → Option S) (s : S) :
    forRange start (count + 1) body s =
      (body s start).bind fun s => forRange (start + 1) count body s := by
  rw [forRange, range'_succ, foldlM_cons]
  rfl

theorem forRange_eq (body : S → ℕ → Option S) (state : ℕ → S) (start count : ℕ)
    (h : ∀ i, i < count → body (state i) (start + i) = some (state (i + 1))) :
    forRange start count body (state 0) = some (state count) := by
  induction count generalizing start state with
  | zero => rfl
  | succ count ih =>
    have hfirst : body (state 0) start = some (state 1) := h 0 (Nat.succ_pos count)
    rw [forRange_succ, hfirst, Option.bind_some]
    apply ih (fun i => state (i + 1))
    intro i hi
    rw [Nat.add_right_comm, Nat.add_assoc]
    exact h (i + 1) (Nat.succ_lt_succ hi)

theorem write_filled (filled rest : List A) (x old : A) :
    write (filled ++ old :: rest) filled.length x = some (filled ++ [x] ++ rest) := by
  have hlt : filled.length < (filled ++ old :: rest).length := by simp
  rw [write, if_pos hlt, set_append_right _ _ (Nat.le_refl _), Nat.sub_self,
    set_cons_zero, append_assoc, singleton_append]

variable (entry : ℕ → A)

def filling (fresh : List A) (i : ℕ) : List A :=
  (range i).map entry ++ fresh.drop i

theorem filling_zero (fresh : List A) : filling entry fresh 0 = fresh := rfl

theorem filling_length (fresh : List A) :
    filling entry fresh fresh.length = (range fresh.length).map entry := by
  rw [filling, drop_length, append_nil]

theorem write_filling {fresh : List A} {i : ℕ} (h : i < fresh.length) :
    write (filling entry fresh i) i (entry i) = some (filling entry fresh (i + 1)) := by
  have hlength : ((range i).map entry).length = i := by rw [length_map, length_range]
  have hwrite := write_filled ((range i).map entry) (fresh.drop (i + 1)) (entry i) fresh[i]
  rw [hlength, ← drop_eq_getElem_cons h] at hwrite
  rw [filling, hwrite, filling, range_succ, map_append, map_singleton]

end Loops

namespace Passage

variable {A C : Type}

def collect (passed : A → Bool) (keep : A → Option C) : List A → List C
  | [] => []
  | x :: xs =>
      if passed x then collect passed keep xs
      else match keep x with
        | some c => c :: collect passed keep xs
        | none => []

structure KeptAt (passed : A → Bool) (keep : A → Option C) (xs : List A) (j : ℕ) (c : C) : Prop where
  before : ∀ x ∈ xs.take j, passed x = true ∨ (keep x).isSome = true
  kept : ∃ x, xs[j]? = some x ∧ passed x = false ∧ keep x = some c

variable {passed : A → Bool} {keep : A → Option C} {x : A} {xs : List A} {j k : ℕ} {c : C}

theorem keptAt_zero : KeptAt passed keep (x :: xs) 0 c ↔ passed x = false ∧ keep x = some c := by
  constructor
  · rintro ⟨-, y, hy, hnot, hkeep⟩
    obtain rfl := Option.some.inj hy
    exact ⟨hnot, hkeep⟩
  · rintro ⟨hnot, hkeep⟩
    exact ⟨fun y hy => absurd hy List.not_mem_nil, x, rfl, hnot, hkeep⟩

theorem keptAt_succ : KeptAt passed keep (x :: xs) (j + 1) c ↔
    (passed x = true ∨ (keep x).isSome = true) ∧ KeptAt passed keep xs j c := by
  constructor
  · rintro ⟨hbefore, hkept⟩
    rw [List.take_succ_cons, List.forall_mem_cons] at hbefore
    exact ⟨hbefore.1, hbefore.2, hkept⟩
  · rintro ⟨hx, hbefore, hkept⟩
    refine ⟨?_, hkept⟩
    rw [List.take_succ_cons, List.forall_mem_cons]
    exact ⟨hx, hbefore⟩

theorem getElem?_collect : (collect passed keep xs)[k]? = some c ↔
    ∃ j, KeptAt passed keep xs j c ∧ (xs.take j).countP (fun x => !passed x) = k := by
  induction xs generalizing k with
  | nil =>
    constructor
    · intro h
      exact absurd h (by simp [collect])
    · rintro ⟨j, ⟨-, y, hy, -⟩, -⟩
      exact absurd hy (by simp)
  | cons x xs ih =>
    cases hpassed : passed x with
    | true =>
      rw [collect, if_pos hpassed, ih]
      constructor
      · rintro ⟨j, hkept, hcount⟩
        exact ⟨j + 1, keptAt_succ.mpr ⟨.inl hpassed, hkept⟩, by simpa [hpassed] using hcount⟩
      · rintro ⟨j, hkept, hcount⟩
        cases j with
        | zero =>
          rw [keptAt_zero, hpassed] at hkept
          exact absurd hkept.1 (by simp)
        | succ j => exact ⟨j, (keptAt_succ.mp hkept).2, by simpa [hpassed] using hcount⟩
    | false =>
      rw [collect, if_neg (by simp [hpassed])]
      cases hkeep : keep x with
      | none =>
        constructor
        · intro h
          exact absurd h (by simp)
        · rintro ⟨j, hkept, -⟩
          cases j with
          | zero => exact absurd (keptAt_zero.mp hkept).2 (by simp [hkeep])
          | succ j =>
            rcases (keptAt_succ.mp hkept).1 with h | h
            · exact absurd h (by simp [hpassed])
            · exact absurd h (by simp [hkeep])
      | some c' =>
        constructor
        · intro h
          cases k with
          | zero =>
            obtain rfl := Option.some.inj h
            exact ⟨0, keptAt_zero.mpr ⟨hpassed, hkeep⟩, rfl⟩
          | succ k =>
            obtain ⟨j, hkept, hcount⟩ := ih.mp h
            refine ⟨j + 1, keptAt_succ.mpr ⟨.inr (by simp [hkeep]), hkept⟩, ?_⟩
            rw [List.take_succ_cons, List.countP_cons, hcount, hpassed]
            rfl
        · rintro ⟨j, hkept, hcount⟩
          cases j with
          | zero =>
            obtain rfl : k = 0 := by simpa using hcount.symm
            rw [← hkeep, (keptAt_zero.mp hkept).2]
            rfl
          | succ j =>
            rw [List.take_succ_cons, List.countP_cons, hpassed] at hcount
            obtain ⟨k, rfl⟩ : ∃ k', k = k' + 1 := ⟨_, hcount.symm⟩
            exact ih.mpr ⟨j, (keptAt_succ.mp hkept).2, Nat.succ.inj hcount⟩

end Passage

namespace GreedyRanges

variable {A : Type}

def Occurs (pattern data : List A) (p : ℕ) : Prop :=
  p + pattern.length ≤ data.length ∧ pattern <+: data.drop p

def Qualifies (first last data : List A) (s : ℕ) : Prop :=
  Occurs first data s ∧ ∃ e, s + first.length ≤ e ∧ Occurs last data e

inductive Greedy (first last data : List A) : ℕ → List (ℕ × ℕ) → Prop
  | done {p : ℕ} (none : ∀ s, p ≤ s → ¬ Qualifies first last data s) : Greedy first last data p []
  | range {p s e : ℕ} {ranges : List (ℕ × ℕ)} (le : p ≤ s) (starts : Occurs first data s)
      (leftmost : ∀ s', p ≤ s' → s' < s → ¬ Qualifies first last data s')
      (behind : s + first.length ≤ e) (stops : Occurs last data e)
      (nearest : ∀ e', s + first.length ≤ e' → e' < e → ¬ Occurs last data e')
      (rest : Greedy first last data (e + last.length) ranges) :
      Greedy first last data p ((s, e + last.length) :: ranges)

variable {first last data : List A} {p : ℕ} {ranges ranges' : List (ℕ × ℕ)}

theorem Greedy.skip {p' : ℕ} (h : Greedy first last data p' ranges) (hle : p ≤ p')
    (hnone : ∀ s, p ≤ s → s < p' → ¬ Qualifies first last data s) :
    Greedy first last data p ranges := by
  cases h with
  | done none =>
    apply Greedy.done
    intro s hs
    rcases Nat.lt_or_ge s p' with hbefore | hfrom
    · exact hnone s hs hbefore
    · exact none s hfrom
  | range le starts leftmost behind stops nearest rest =>
    refine .range (hle.trans le) starts ?_ behind stops nearest rest
    intro s hs hlt
    rcases Nat.lt_or_ge s p' with hbefore | hfrom
    · exact hnone s hs hbefore
    · exact leftmost s hfrom hlt

theorem least_unique {P : ℕ → Prop} {a b low : ℕ} (ha : P a) (hb : P b) (hla : low ≤ a)
    (hlb : low ≤ b) (hmina : ∀ n, low ≤ n → n < a → ¬ P n)
    (hminb : ∀ n, low ≤ n → n < b → ¬ P n) : a = b := by
  rcases Nat.lt_trichotomy a b with hlt | heq | hgt
  · exact absurd ha (hminb a hla hlt)
  · exact heq
  · exact absurd hb (hmina b hlb hgt)

theorem Greedy.unique (h : Greedy first last data p ranges)
    (h' : Greedy first last data p ranges') : ranges = ranges' := by
  induction h generalizing ranges' with
  | done none =>
    cases h' with
    | done none' => rfl
    | range le starts leftmost behind stops nearest rest =>
      exact absurd ⟨starts, _, behind, stops⟩ (none _ le)
  | @range p s e ranges le starts leftmost behind stops nearest rest ih =>
    cases h' with
    | done none' => exact absurd ⟨starts, _, behind, stops⟩ (none' _ le)
    | @range _ s' e' ranges' le' starts' leftmost' behind' stops' nearest' rest' =>
      have hs : s = s' := least_unique (P := Qualifies first last data)
        ⟨starts, e, behind, stops⟩ ⟨starts', e', behind', stops'⟩ le le' leftmost leftmost'
      subst hs
      have he : e = e' := least_unique (P := Occurs last data) stops stops' behind behind'
        nearest nearest'
      subst he
      rw [ih rest']

theorem Greedy.bounds (h : Greedy first last data p ranges) :
    ∀ r ∈ ranges, p ≤ r.1 ∧ r.1 + first.length + last.length ≤ r.2 ∧ r.2 ≤ data.length := by
  induction h with
  | done none => exact fun r hr => absurd hr List.not_mem_nil
  | range le starts leftmost behind stops nearest rest ih =>
    intro r hr
    rcases List.mem_cons.mp hr with rfl | hlater
    · have hstop := stops.1
      exact ⟨le, by omega, hstop⟩
    · obtain ⟨hfrom, hlength, hstop⟩ := ih r hlater
      exact ⟨by omega, hlength, hstop⟩

theorem Greedy.disjoint (h : Greedy first last data p ranges) :
    ranges.Pairwise fun r r' => r.2 ≤ r'.1 := by
  induction h with
  | done none => exact .nil
  | range le starts leftmost behind stops nearest rest ih =>
    exact .cons (fun r hr => (rest.bounds r hr).1) ih

end GreedyRanges
