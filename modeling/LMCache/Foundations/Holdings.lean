import Mathlib.Algebra.BigOperators.Group.Multiset.Basic

namespace LMCache

open List Option

structure RunningWork (K O : Type) where
  keys : List K
  refs : Multiset (K × O)
  owned : ∀ p ∈ refs, p.1 ∈ keys

namespace RunningWork

variable {K O : Type} {recorded recorded' : List K} {held : Multiset (K × O)}
  {running running' : List (RunningWork K O)}

def RunsFor (running : List (RunningWork K O)) (key : K) : Prop :=
  ∃ work ∈ running, key ∈ work.keys

def refsOf (running : List (RunningWork K O)) : Multiset (K × O) := (running.map refs).sum

structure Balanced (recorded : List K) (held : Multiset (K × O))
    (running : List (RunningWork K O)) : Prop where
  recorded : ∀ key ∈ recorded, RunsFor running key
  held : held = refsOf running

def NoneStuck (recorded : List K) (held : Multiset (K × O))
    (running : List (RunningWork K O)) : Prop :=
  ∀ key, ¬ RunsFor running key → key ∉ recorded ∧ ∀ obj, (key, obj) ∉ held

theorem runsFor_of_mem_refsOf {p : K × O} (h : p ∈ refsOf running) : RunsFor running p.1 := by
  induction running with
  | nil => exact absurd h (Multiset.notMem_zero p)
  | cons work running ih =>
    rw [refsOf, map_cons, sum_cons, Multiset.mem_add] at h
    rcases h with hwork | hrest
    · exact ⟨work, mem_cons_self, work.owned p hwork⟩
    · obtain ⟨other, hother, hkey⟩ := ih hrest
      exact ⟨other, mem_cons_of_mem _ hother, hkey⟩

theorem Balanced.noneStuck (h : Balanced recorded held running) :
    NoneStuck recorded held running := fun key hidle =>
  ⟨fun hkey => hidle (h.recorded key hkey), fun _ hheld =>
    hidle (runsFor_of_mem_refsOf (h.held ▸ hheld))⟩

theorem balanced_nil : Balanced ([] : List K) (0 : Multiset (K × O)) [] :=
  ⟨fun _ h => absurd h not_mem_nil, rfl⟩

theorem RunsFor.perm {key : K} (h : RunsFor running key) (hperm : running.Perm running') :
    RunsFor running' key :=
  h.imp fun _ hwork => ⟨hperm.mem_iff.mp hwork.1, hwork.2⟩

theorem refsOf_perm (h : running.Perm running') : refsOf running = refsOf running' :=
  (h.map refs).sum_eq

theorem refsOf_snoc (running : List (RunningWork K O)) (work : RunningWork K O) :
    refsOf (running ++ [work]) = refsOf running + work.refs := by
  rw [refsOf, map_append, sum_append, map_singleton, sum_singleton]
  rfl

theorem Balanced.perm (h : Balanced recorded held running) (hperm : running.Perm running') :
    Balanced recorded held running' :=
  ⟨fun key hkey => (h.recorded key hkey).perm hperm, h.held.trans (refsOf_perm hperm)⟩

theorem Balanced.begin (h : Balanced recorded held running) (work : RunningWork K O)
    (hrecorded : ∀ key ∈ recorded', key ∈ recorded ∨ key ∈ work.keys) :
    Balanced recorded' (held + work.refs) (running ++ [work]) := by
  refine ⟨fun key hkey => ?_, by rw [h.held, refsOf_snoc]⟩
  rcases hrecorded key hkey with hold | hnew
  · obtain ⟨other, hother, hin⟩ := h.recorded key hold
    exact ⟨other, mem_append_left _ hother, hin⟩
  · exact ⟨work, mem_append_right _ mem_cons_self, hnew⟩

variable {others : List (RunningWork K O)}

theorem Balanced.release [DecidableEq K] [DecidableEq O] {work work' : RunningWork K O}
    {released : Multiset (K × O)} (h : Balanced recorded held (work :: others))
    (hkeys : work'.keys = work.keys) (hrefs : work.refs = work'.refs + released) :
    Balanced recorded (held - released) (work' :: others) := by
  refine ⟨fun key hkey => ?_, ?_⟩
  · obtain ⟨other, hother, hin⟩ := h.recorded key hkey
    rcases mem_cons.mp hother with rfl | hrest
    · exact ⟨work', mem_cons_self, hkeys ▸ hin⟩
    · exact ⟨other, mem_cons_of_mem _ hrest, hin⟩
  · rw [h.held, refsOf, map_cons, sum_cons, hrefs, add_right_comm,
      Multiset.add_sub_cancel_right, refsOf, map_cons, sum_cons]

theorem Balanced.finish [DecidableEq K] [DecidableEq O] {work : RunningWork K O}
    (h : Balanced recorded held (work :: others))
    (hrecorded : ∀ key ∈ recorded', key ∈ recorded ∧ key ∉ work.keys) :
    Balanced recorded' (held - work.refs) others := by
  refine ⟨fun key hkey => ?_, ?_⟩
  · obtain ⟨hold, hnot⟩ := hrecorded key hkey
    obtain ⟨other, hother, hin⟩ := h.recorded key hold
    rcases mem_cons.mp hother with rfl | hrest
    · exact absurd hin hnot
    · exact ⟨other, hrest, hin⟩
  · rw [h.held, refsOf, map_cons, sum_cons, add_comm, Multiset.add_sub_cancel_right]
    rfl

end RunningWork

structure Holding (O A : Type) where
  taken : Multiset O
  dropped : Multiset O
  result : Option A

namespace Holding

variable {O A B : Type}

def take (obj : O) : Holding O Unit := ⟨{obj}, 0, some ()⟩

def drop (objs : List O) : Holding O Unit := ⟨0, objs, some ()⟩

def raise : Holding O A := ⟨0, 0, none⟩

protected def bind (work : Holding O A) (next : A → Holding O B) : Holding O B :=
  match work.result with
  | none => ⟨work.taken, work.dropped, none⟩
  | some a =>
      ⟨work.taken + (next a).taken, work.dropped + (next a).dropped, (next a).result⟩

instance : Monad (Holding O) where
  pure a := ⟨0, 0, some a⟩
  bind := Holding.bind

def ofExcept {ε : Type} : Except ε A → Holding O A
  | .error _ => raise
  | .ok a => pure a

def each (step : A → Holding O B) : List A → Holding O (List B)
  | [] => pure []
  | x :: xs => do
      let y ← step x
      let ys ← each step xs
      return y :: ys

@[simp] theorem result_pure (a : A) : (pure a : Holding O A).result = some a := rfl

@[simp] theorem result_raise : (raise : Holding O A).result = none := rfl

@[simp] theorem result_take (obj : O) : (take obj).result = some () := rfl

@[simp] theorem result_drop (objs : List O) : (drop objs).result = some () := rfl

theorem bind_of_some {work : Holding O A} {a : A} (h : work.result = some a)
    (next : A → Holding O B) : work >>= next =
      ⟨work.taken + (next a).taken, work.dropped + (next a).dropped, (next a).result⟩ := by
  change work.bind next = _
  rw [Holding.bind, h]

theorem bind_of_none {work : Holding O A} (h : work.result = none) (next : A → Holding O B) :
    work >>= next = ⟨work.taken, work.dropped, none⟩ := by
  change work.bind next = _
  rw [Holding.bind, h]

protected theorem pure_bind (a : A) (next : A → Holding O B) :
    (pure a : Holding O A) >>= next = next a := by
  rw [bind_of_some rfl next]
  change (⟨0 + (next a).taken, 0 + (next a).dropped, (next a).result⟩ : Holding O B) = next a
  rw [zero_add, zero_add]

@[simp] theorem ok_bind {ε : Type} (a : A) (next : A → Holding O B) :
    (ofExcept (.ok a : Except ε A) : Holding O A) >>= next = next a := Holding.pure_bind a next

@[simp] theorem result_bind (work : Holding O A) (next : A → Holding O B) :
    (work >>= next).result = work.result.bind fun a => (next a).result := by
  cases h : work.result with
  | none => rw [bind_of_none h, bind_none]
  | some a => rw [bind_of_some h, bind_some]

variable {step : A → Holding O B}

theorem result_each {fine : A → Bool} {made : A → B} {xs : List A}
    (h : ∀ x ∈ xs, (step x).result = if fine x then some (made x) else none) :
    (each step xs).result = if xs.all fine then some (xs.map made) else none := by
  induction xs with
  | nil => rfl
  | cons x xs ih =>
    rw [each, result_bind, h x mem_cons_self, all_cons]
    cases fine x with
    | false => rfl
    | true =>
      rw [if_pos rfl, bind_some, result_bind,
        ih fun y hy => h y (mem_cons_of_mem x hy), Bool.true_and]
      cases xs.all fine with
      | false => rfl
      | true => rfl

theorem length_of_each {xs : List A} {ys : List B} (h : (each step xs).result = some ys) :
    ys.length = xs.length := by
  induction xs generalizing ys with
  | nil => exact (some.inj h) ▸ rfl
  | cons x xs ih =>
    rw [each, result_bind] at h
    obtain ⟨y, -, hrest⟩ := bind_eq_some_iff.mp h
    rw [result_bind] at hrest
    obtain ⟨zs, hzs, hcons⟩ := bind_eq_some_iff.mp hrest
    obtain rfl := some.inj hcons
    rw [length_cons, length_cons, ih hzs]

structure Leaves (held : Multiset O) (work : Holding O A) (after : A → Multiset O) : Prop where
  returns : ∀ a, work.result = some a → held + work.taken = work.dropped + after a
  raises : work.result = none → ∃ left, left ≠ 0 ∧ held + work.taken = work.dropped + left

theorem ne_zero_of_le {held held' : Multiset O} (h : held ≠ 0) (hle : held ≤ held') : held' ≠ 0 :=
  fun hzero => h (Multiset.le_zero.mp (hzero ▸ hle))

section Rules

variable {held rest base : Multiset O} {work : Holding O A} {mid : A → Multiset O}
  {next : A → Holding O B} {after : B → Multiset O}

theorem leaves_pure {b : B} (h : held = after b) : Leaves held (pure b) after := by
  refine ⟨fun b' hb => ?_, fun hnone => nomatch hnone⟩
  obtain rfl := some.inj hb
  change held + 0 = 0 + after b
  rw [add_zero, zero_add, h]

theorem leaves_raise (h : held ≠ 0) : Leaves held raise after :=
  ⟨fun _ hb => (nomatch hb), fun _ => ⟨held, h, add_comm held 0⟩⟩

theorem leaves_take (obj : O) (held : Multiset O) :
    Leaves held (take obj) fun _ => obj ::ₘ held := by
  refine ⟨fun _ _ => ?_, fun hnone => nomatch hnone⟩
  change held + {obj} = 0 + obj ::ₘ held
  rw [zero_add, add_comm, Multiset.singleton_add]

theorem leaves_drop (objs : List O) (held : Multiset O) :
    Leaves ((objs : Multiset O) + held) (drop objs) fun _ => held :=
  ⟨fun _ _ => add_zero _, fun hnone => nomatch hnone⟩

theorem leaves_drop_singleton (obj : O) (held : Multiset O) :
    Leaves (obj ::ₘ held) (drop [obj]) fun _ => held := by
  rw [← Multiset.singleton_add]
  exact leaves_drop [obj] held

theorem leaves_ofExcept {ε : Type} (e : Except ε A) (h : held ≠ 0) :
    Leaves held (ofExcept e) fun _ => held := by
  cases e with
  | error error => exact leaves_raise h
  | ok a => exact leaves_pure rfl

theorem Leaves.bind (h : Leaves held work mid)
    (hnext : ∀ a, work.result = some a → Leaves (mid a) (next a) after) :
    Leaves held (work >>= next) after := by
  cases hresult : work.result with
  | none =>
    rw [bind_of_none hresult]
    exact ⟨fun _ hb => (nomatch hb), fun _ => h.raises hresult⟩
  | some a =>
    have hmid : held + work.taken = work.dropped + mid a := h.returns a hresult
    have hsum : ∀ left, mid a + (next a).taken = (next a).dropped + left →
        held + (work.taken + (next a).taken) = work.dropped + (next a).dropped + left := by
      intro left hleft
      rw [← add_assoc, hmid, add_assoc, hleft, add_assoc]
    rw [bind_of_some hresult]
    refine ⟨fun b hb => hsum _ ((hnext a hresult).returns b hb), fun hnone => ?_⟩
    obtain ⟨left, hne, hleft⟩ := (hnext a hresult).raises hnone
    exact ⟨left, hne, hsum left hleft⟩

theorem leaves_each {step : A → Holding O O} {found : A → List O} {xs : List A}
    (h : ∀ x ∈ xs, ∀ rest, base ≤ rest →
      Leaves ((found x : Multiset O) + rest) (step x) fun obj => obj ::ₘ rest)
    (hrest : base ≤ rest) :
    Leaves ((xs.flatMap found : Multiset O) + rest) (each step xs)
      fun objs => (objs : Multiset O) + rest := by
  induction xs generalizing rest with
  | nil => exact leaves_pure rfl
  | cons x xs ih =>
    have hfound : ((x :: xs).flatMap found : Multiset O) + rest =
        (found x : Multiset O) + ((xs.flatMap found : Multiset O) + rest) := by
      rw [flatMap_cons, ← Multiset.coe_add, add_assoc]
    rw [hfound, each]
    refine (h x mem_cons_self _ (hrest.trans (Multiset.le_add_left _ _))).bind fun obj _ => ?_
    rw [← Multiset.add_cons]
    refine (ih (fun y hy => h y (mem_cons_of_mem x hy))
      (hrest.trans (Multiset.le_cons_self _ obj))).bind fun objs _ => leaves_pure ?_
    rw [Multiset.add_cons, ← Multiset.cons_coe, Multiset.cons_add]

end Rules

section Moves

structure SameMoves (work : Holding O A) (work' : Holding O B) : Prop where
  taken : work.taken = work'.taken
  dropped : work.dropped = work'.dropped

variable {work : Holding O A} {next next' : A → Holding O B}

theorem SameMoves.refl (work : Holding O A) : SameMoves work work := ⟨rfl, rfl⟩

theorem SameMoves.trans {C : Type} {work' : Holding O B} {work'' : Holding O C}
    (h : SameMoves work work') (h' : SameMoves work' work'') : SameMoves work work'' :=
  ⟨h.taken.trans h'.taken, h.dropped.trans h'.dropped⟩

theorem sameMoves_ofExcept {ε : Type} (e : Except ε A) :
    SameMoves (ofExcept e : Holding O A) (pure () : Holding O Unit) := by
  cases e with
  | error error => exact ⟨rfl, rfl⟩
  | ok a => exact ⟨rfl, rfl⟩

theorem SameMoves.bind_idle (h : ∀ a, SameMoves (next a) (pure () : Holding O Unit)) :
    SameMoves (work >>= next) work := by
  cases hresult : work.result with
  | none =>
    rw [bind_of_none hresult]
    exact ⟨rfl, rfl⟩
  | some a =>
    rw [bind_of_some hresult, (h a).taken, (h a).dropped]
    exact ⟨add_zero _, add_zero _⟩

theorem SameMoves.bind_right (h : ∀ a, SameMoves (next a) (next' a)) :
    SameMoves (work >>= next) (work >>= next') := by
  cases hresult : work.result with
  | none =>
    rw [bind_of_none hresult, bind_of_none hresult]
    exact ⟨rfl, rfl⟩
  | some a =>
    rw [bind_of_some hresult, bind_of_some hresult, (h a).taken, (h a).dropped]
    exact ⟨rfl, rfl⟩

end Moves

section Remaining

variable [DecidableEq O] {work : Holding O A}

def remaining (work : Holding O A) : Multiset O := work.taken - work.dropped

theorem SameMoves.remaining_eq {work' : Holding O B} (h : SameMoves work work') :
    work.remaining = work'.remaining := by
  rw [remaining, remaining, h.taken, h.dropped]

theorem Leaves.remaining_eq_zero_iff {after : A → Multiset O} (h : Leaves 0 work after)
    (hafter : ∀ a, work.result = some a → after a = 0) :
    work.remaining = 0 ↔ work.result.isSome = true := by
  cases hresult : work.result with
  | none =>
    obtain ⟨left, hne, hleft⟩ := h.raises hresult
    rw [zero_add] at hleft
    rw [remaining, hleft, add_tsub_cancel_left]
    exact iff_of_false hne Bool.false_ne_true
  | some a =>
    have htaken := h.returns a hresult
    rw [zero_add, hafter a hresult] at htaken
    rw [remaining, htaken, add_tsub_cancel_left]
    exact iff_of_true rfl rfl

end Remaining

end Holding

end LMCache
