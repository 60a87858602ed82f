import Mathlib.Data.List.Basic

namespace Execution

variable {S L : Type}

def final (exec : S → L → S) (s : S) (ls : List L) : S := ls.foldl exec s

def Along (exec : S → L → S) (Q : S → L → Prop) : S → List L → Prop
  | _, [] => True
  | s, l :: ls => Q s l ∧ Along exec Q (exec s l) ls

instance decidableAlong (exec : S → L → S) (Q : S → L → Prop) [∀ s l, Decidable (Q s l)] :
    ∀ s ls, Decidable (Along exec Q s ls)
  | _, [] => .isTrue trivial
  | s, l :: ls =>
      have := decidableAlong exec Q (exec s l) ls
      inferInstanceAs (Decidable (Q s l ∧ Along exec Q (exec s l) ls))

variable {exec : S → L → S} {Q R : S → L → Prop} {I : S → Prop} (s : S)

@[simp] theorem final_nil : final exec s [] = s := rfl

@[simp] theorem final_cons (l : L) (ls : List L) :
    final exec s (l :: ls) = final exec (exec s l) ls := rfl

theorem final_append (ls ms : List L) :
    final exec s (ls ++ ms) = final exec (final exec s ls) ms := List.foldl_append

theorem final_snoc (s ls : List L) : final (fun s l => s ++ [l]) s ls = s ++ ls := by
  induction ls generalizing s with
  | nil => exact (List.append_nil s).symm
  | cons l ls ih => rw [final_cons, ih, List.append_assoc, List.singleton_append]

@[simp] theorem along_nil : Along exec Q s [] := trivial

@[simp] theorem along_cons (l : L) (ls : List L) :
    Along exec Q s (l :: ls) ↔ Q s l ∧ Along exec Q (exec s l) ls := Iff.rfl

theorem along_of_forall (h : ∀ s l, Q s l) (s : S) (ls : List L) : Along exec Q s ls := by
  induction ls generalizing s with
  | nil => trivial
  | cons l ls ih => exact ⟨h s l, ih (exec s l)⟩

variable {ls : List L}

theorem along_of_mem {P : L → Prop} (h : ∀ l ∈ ls, P l) (s : S) :
    Along exec (fun _ l => P l) s ls := by
  induction ls generalizing s with
  | nil => trivial
  | cons l ls ih =>
    exact ⟨h l List.mem_cons_self, ih (fun m hm => h m (List.mem_cons_of_mem _ hm)) (exec s l)⟩

theorem along_append (ls ms : List L) :
    Along exec Q s (ls ++ ms) ↔ Along exec Q s ls ∧ Along exec Q (final exec s ls) ms := by
  induction ls generalizing s with
  | nil => simp
  | cons l ls ih => simp [ih, and_assoc]

theorem Along.and {s : S} (hq : Along exec Q s ls) (hr : Along exec R s ls) :
    Along exec (fun s l => Q s l ∧ R s l) s ls := by
  induction ls generalizing s with
  | nil => trivial
  | cons l ls ih => exact ⟨⟨hq.1, hr.1⟩, ih hq.2 hr.2⟩

theorem invariant_final (hstep : ∀ s l, I s → Q s l → I (exec s l)) {s : S} (h0 : I s)
    (hq : Along exec Q s ls) : I (final exec s ls) := by
  induction ls generalizing s with
  | nil => exact h0
  | cons l ls ih => exact ih (hstep s l h0 hq.1) hq.2

theorem along_of_invariant (hstep : ∀ s l, I s → Q s l → I (exec s l))
    (hr : ∀ s l, I s → Q s l → R s l) {s : S} (h0 : I s) (hq : Along exec Q s ls) :
    Along exec R s ls := by
  induction ls generalizing s with
  | nil => trivial
  | cons l ls ih => exact ⟨hr s l h0 hq.1, ih (hstep s l h0 hq.1) hq.2⟩

theorem forall_prefix_iff (ls : List L) :
    (∀ pre rest, ls = pre ++ rest → I (final exec s pre)) ↔
      I s ∧ Along exec (fun s l => I (exec s l)) s ls := by
  induction ls generalizing s with
  | nil =>
    refine ⟨fun h => ⟨h [] [] rfl, trivial⟩, fun h pre rest heq => ?_⟩
    obtain ⟨rfl, _⟩ := List.append_eq_nil_iff.mp heq.symm
    exact h.1
  | cons l ls ih =>
    constructor
    · intro h
      refine ⟨h [] (l :: ls) rfl, (ih (exec s l)).mp fun pre rest heq => ?_⟩
      exact h (l :: pre) rest (by rw [heq, List.cons_append])
    · rintro ⟨h0, hrest⟩ pre rest heq
      cases pre with
      | nil => exact h0
      | cons m pre =>
        obtain ⟨rfl, htail⟩ := List.cons.inj heq
        exact (ih (exec s l)).mpr hrest pre rest htail

variable {P : S → L → Prop}

theorem along_iff_along (hstep : ∀ s l, I s → Q s l → R s l → I (exec s l))
    (hiff : ∀ s l, I s → Q s l → (P s l ↔ R s l)) {s : S} (h0 : I s) (hq : Along exec Q s ls) :
    Along exec P s ls ↔ Along exec R s ls := by
  induction ls generalizing s with
  | nil => exact Iff.rfl
  | cons l ls ih =>
    rw [along_cons, along_cons, hiff s l h0 hq.1]
    exact and_congr_right fun hr => ih (hstep s l h0 hq.1 hr) hq.2

theorem along_or_not {J : S → Prop} (hgood : ∀ s l, I s → Q s l → P s l → I (exec s l))
    (hbad : ∀ s l, I s → Q s l → ¬ P s l → J (exec s l)) (hstay : ∀ s l, J s → Q s l → J (exec s l))
    {s : S} (h0 : I s) (hq : Along exec Q s ls) :
    Along exec P s ls ∧ I (final exec s ls) ∨ ¬ Along exec P s ls ∧ J (final exec s ls) := by
  induction ls generalizing s with
  | nil => exact .inl ⟨trivial, h0⟩
  | cons l ls ih =>
    by_cases hp : P s l
    · rcases ih (hgood s l h0 hq.1 hp) hq.2 with ⟨hrest, hfinal⟩ | ⟨hrest, hfinal⟩
      · exact .inl ⟨⟨hp, hrest⟩, hfinal⟩
      · exact .inr ⟨fun h => hrest h.2, hfinal⟩
    · exact .inr ⟨fun h => hp h.1, invariant_final (s := exec s l) hstay (hbad s l h0 hq.1 hp) hq.2⟩

theorem final_iff_along {P : S → Prop} (hstep : ∀ s l, I s → I (exec s l))
    (hiff : ∀ s l, I s → (P (exec s l) ↔ P s ∧ Q s l)) {s : S} (h0 : I s) :
    P (final exec s ls) ↔ P s ∧ Along exec Q s ls := by
  induction ls generalizing s with
  | nil => exact (and_iff_left trivial).symm
  | cons l ls ih => rw [final_cons, ih (hstep s l h0), hiff s l h0, along_cons, and_assoc]

end Execution
