import Mathlib.Data.List.Basic

structure Generator (Y E A : Type) where
  yields : List Y
  result : Except E A

namespace Generator

variable {Y E A B : Type}

instance : Monad (Generator Y E) where
  pure a := ⟨[], .ok a⟩
  bind g f :=
    match g.result with
    | .error error => ⟨g.yields, .error error⟩
    | .ok a => ⟨g.yields ++ (f a).yields, (f a).result⟩

def yield (y : Y) : Generator Y E Unit := ⟨[y], .ok ()⟩

def ofExcept (x : Except E A) : Generator Y E A := ⟨[], x⟩

def require (p : Bool) (error : E) : Generator Y E Unit :=
  ofExcept (if p then .ok () else .error error)

def forEach (body : B → Generator Y E Unit) : List B → Generator Y E Unit
  | [] => pure ()
  | b :: bs => do
      body b
      forEach body bs

def Ends (g : Generator Y E A) (Q : List Y → A → Prop) : Prop :=
  ∃ a, g.result = .ok a ∧ Q g.yields a

variable {g : Generator Y E A} {f : A → Generator Y E B} {Q : List Y → B → Prop}

@[simp]
theorem ends_pure (a : A) {R : List Y → A → Prop} : (pure a : Generator Y E A).Ends R ↔ R [] a := by
  constructor
  · rintro ⟨b, hresult, hb⟩
    cases hresult
    exact hb
  · exact fun ha => ⟨a, rfl, ha⟩

@[simp]
theorem ends_bind :
    (g >>= f).Ends Q ↔ g.Ends fun ys a => (f a).Ends fun zs b => Q (ys ++ zs) b := by
  obtain ⟨ys, result⟩ := g
  cases result with
  | error error =>
    constructor
    · rintro ⟨b, hresult, _⟩
      cases hresult
    · rintro ⟨a, hresult, _⟩
      cases hresult
  | ok a =>
    constructor
    · rintro ⟨b, hresult, hb⟩
      exact ⟨a, rfl, b, hresult, hb⟩
    · rintro ⟨a', hresult, b, hresult', hb⟩
      cases hresult
      exact ⟨b, hresult', hb⟩

variable {R : List Y → Unit → Prop}

@[simp]
theorem ends_yield (y : Y) : (yield y : Generator Y E Unit).Ends R ↔ R [y] () := by
  constructor
  · rintro ⟨⟨⟩, _, hy⟩
    exact hy
  · exact fun hy => ⟨(), rfl, hy⟩

@[simp]
theorem ends_ofExcept (x : Except E A) {R : List Y → A → Prop} :
    (ofExcept x : Generator Y E A).Ends R ↔ ∃ a, x = .ok a ∧ R [] a := Iff.rfl

@[simp]
theorem ends_require (p : Bool) (error : E) :
    (require p error : Generator Y E Unit).Ends R ↔ p = true ∧ R [] () := by
  cases p with
  | false => simp [require]
  | true => exact ⟨fun ⟨_, _, hpure⟩ => ⟨rfl, hpure⟩, fun h => ⟨(), rfl, h.2⟩⟩

theorem ends_forEach {body : B → Generator Y E Unit} {y : B → Y} {P : B → Prop} {bs : List B}
    (h : ∀ b ∈ bs, ∀ R : List Y → Unit → Prop, (body b).Ends R ↔ P b ∧ R [y b] ()) :
    (forEach body bs).Ends R ↔ (∀ b ∈ bs, P b) ∧ R (bs.map y) () := by
  induction bs generalizing R with
  | nil => simp [forEach]
  | cons b bs ih =>
    rw [forEach, ends_bind, h b List.mem_cons_self,
      ih fun b' hb' => h b' (List.mem_cons_of_mem _ hb'), List.forall_mem_cons, and_assoc]
    rfl

@[simp]
theorem ends_forEach_yield (y : B → Y) (bs : List B) :
    (forEach (fun b => (yield (y b) : Generator Y E Unit)) bs).Ends R ↔ R (bs.map y) () := by
  rw [ends_forEach (y := y) (P := fun _ => True) fun b _ R => by rw [ends_yield, true_and]]
  exact and_iff_right fun _ _ => trivial

@[simp]
theorem ends_forEach_yield_if (p : B → Prop) [DecidablePred p] (y : B → Y) (bs : List B) :
    (forEach (fun b => if p b then (yield (y b) : Generator Y E Unit) else pure ()) bs).Ends R ↔
      R ((bs.filter p).map y) () := by
  induction bs generalizing R with
  | nil => simp [forEach]
  | cons b bs ih =>
    rw [forEach, ends_bind]
    by_cases hb : p b
    · simp [hb, ih]
    · simp [hb, ih]

theorem yields_of_ends {ys : List Y} (h : g.Ends fun zs _ => zs = ys) : g.yields = ys := by
  obtain ⟨_, _, hyields⟩ := h
  exact hyields

end Generator
