import Mathlib.Data.List.Infix

namespace Substitution

open List

variable {A : Type} [DecidableEq A]

def replaceFrom (old new : List A) : ℕ → List A → List A
  | _, [] => []
  | skip + 1, _ :: s => replaceFrom old new skip s
  | 0, c :: s =>
      if old.isPrefixOf (c :: s) then new ++ replaceFrom old new (old.length - 1) s
      else c :: replaceFrom old new 0 s

def replaceAll (old new s : List A) : List A := replaceFrom old new 0 s

theorem replaceFrom_append (old new s t : List A) :
    replaceFrom old new s.length (s ++ t) = replaceFrom old new 0 t := by
  induction s with
  | nil => rfl
  | cons c s ih => exact ih

variable {old new s : List A}

theorem replaceAll_cons_matched {c : A} (h : old <+: c :: s) :
    replaceAll old new (c :: s) = new ++ replaceFrom old new (old.length - 1) s :=
  if_pos (List.isPrefixOf_iff_prefix.mpr h)

theorem replaceAll_cons_unmatched {c : A} (h : ¬ old <+: c :: s) :
    replaceAll old new (c :: s) = c :: replaceAll old new s :=
  if_neg fun h' => h (List.isPrefixOf_iff_prefix.mp h')

theorem replaceAll_append (old new t : List A) (hne : old ≠ []) :
    replaceAll old new (old ++ t) = new ++ replaceAll old new t := by
  obtain ⟨c, rest, rfl⟩ := exists_cons_of_ne_nil hne
  have hprefix : c :: rest <+: c :: (rest ++ t) := prefix_append (c :: rest) t
  rw [cons_append, replaceAll_cons_matched hprefix]
  exact congrArg (new ++ ·) (replaceFrom_append (c :: rest) new rest t)

section Escape

variable {e : A} {marker : List A}

def escape (e : A) (marker s : List A) : List A := replaceAll [e] marker s

@[simp] theorem escape_nil : escape e marker [] = [] := rfl

theorem escape_cons (c : A) (s : List A) :
    escape e marker (c :: s) = (if c = e then marker else [c]) ++ escape e marker s := by
  split_ifs with h
  · rw [h]
    exact replaceAll_append [e] marker s (cons_ne_nil _ _)
  · refine replaceAll_cons_unmatched fun hprefix => h ?_
    exact (cons_prefix_cons.mp hprefix).1.symm

theorem notMem_escape (h : e ∉ marker) (s : List A) : e ∉ escape e marker s := by
  induction s with
  | nil => exact not_mem_nil
  | cons c s ih =>
    rw [escape_cons, mem_append, not_or]
    refine ⟨?_, ih⟩
    split_ifs with hc
    · exact h
    · rw [mem_singleton]
      exact fun heq => hc heq.symm

theorem replaceAll_escape_iff (hne : marker ≠ []) (s : List A) :
    replaceAll marker [e] (escape e marker s) = s ↔
      ∀ c t, c ≠ e → c :: t <:+ s → ¬ marker <+: escape e marker (c :: t) := by
  induction s with
  | nil => exact iff_of_true rfl fun c t _ hsuffix => by simp at hsuffix
  | cons c s ih =>
    have hlater : (∀ d t, d ≠ e → d :: t <:+ c :: s → ¬ marker <+: escape e marker (d :: t)) ↔
        (c ≠ e → ¬ marker <+: escape e marker (c :: s)) ∧
          ∀ d t, d ≠ e → d :: t <:+ s → ¬ marker <+: escape e marker (d :: t) := by
      constructor
      · intro h
        exact ⟨fun hc => h c s hc (suffix_refl _),
          fun d t hd hsuffix => h d t hd (hsuffix.trans (suffix_cons c s))⟩
      · rintro ⟨hfirst, hrest⟩ d t hd hsuffix
        rcases suffix_cons_iff.mp hsuffix with heq | hsuffix
        · obtain ⟨rfl, rfl⟩ := cons.inj heq
          exact hfirst hd
        · exact hrest d t hd hsuffix
    rw [hlater, ← ih]
    by_cases hc : c = e
    · rw [escape_cons, if_pos hc, replaceAll_append _ _ _ hne, hc, singleton_append, cons_inj_right]
      exact (and_iff_right fun h => absurd rfl h).symm
    · rw [and_congr_left fun _ => (show _ ↔ ¬ marker <+: escape e marker (c :: s) from
        ⟨fun h => h hc, fun h _ => h⟩), escape_cons, if_neg hc, singleton_append]
      by_cases hprefix : marker <+: c :: escape e marker s
      · refine iff_of_false (fun h => hc ?_) fun h => h.1 hprefix
        rw [replaceAll_cons_matched hprefix] at h
        exact (cons.inj h).1.symm
      · rw [replaceAll_cons_unmatched hprefix, cons_inj_right]
        exact (and_iff_right hprefix).symm

theorem cons_prefix_escape {c : A} {p s : List A} (hc : c ≠ e)
    (hmarker : ∀ d ∈ marker.head?, d ≠ c) (hne : marker ≠ []) :
    c :: p <+: escape e marker s ↔ ∃ t, s = c :: t ∧ p <+: escape e marker t := by
  cases s with
  | nil => simp
  | cons d s =>
    rw [escape_cons]
    split_ifs with hd
    · obtain ⟨m, rest, rfl⟩ := exists_cons_of_ne_nil hne
      rw [cons_append, cons_prefix_cons]
      refine iff_of_false (fun h => hmarker m rfl h.1.symm) ?_
      rintro ⟨t, heq, _⟩
      exact hc ((cons.inj heq).1.symm.trans hd)
    · rw [singleton_append, cons_prefix_cons]
      constructor
      · rintro ⟨rfl, h⟩
        exact ⟨s, rfl, h⟩
      · rintro ⟨t, heq, h⟩
        obtain ⟨rfl, rfl⟩ := cons.inj heq
        exact ⟨rfl, h⟩

end Escape

section Split

variable {c : A}

def rsplitOnce (c : A) (s : List A) : Option (List A × List A) :=
  match s.reverse.span (fun d => d ≠ c) with
  | (_, []) => none
  | (back, _ :: front) => some (front.reverse, back.reverse)

def rsplit (c : A) : ℕ → List A → List (List A)
  | 0, s => [s]
  | n + 1, s =>
      match rsplitOnce c s with
      | none => [s]
      | some (front, back) => rsplit c n front ++ [back]

variable {front back : List A}

theorem rsplitOnce_append (h : c ∉ back) :
    rsplitOnce c (front ++ c :: back) = some (front, back) := by
  have hspan : (front ++ c :: back).reverse.span (fun d => d ≠ c) =
      (back.reverse, c :: front.reverse) := by
    rw [span_eq_takeWhile_dropWhile, reverse_append, reverse_cons, append_assoc, singleton_append]
    have hall : ∀ d ∈ back.reverse, decide (d ≠ c) = true := by
      intro d hd
      rw [decide_eq_true_eq]
      rintro rfl
      exact h (mem_reverse.mp hd)
    rw [takeWhile_append_of_pos hall, dropWhile_append_of_pos hall]
    simp
  rw [rsplitOnce, hspan]
  simp

theorem rsplit_append {n : ℕ} (h : c ∉ back) :
    rsplit c (n + 1) (front ++ c :: back) = rsplit c n front ++ [back] := by
  rw [rsplit, rsplitOnce_append h]

end Split

end Substitution
