import Mathlib.Data.List.Nodup
import Mathlib.Data.List.Perm.Basic

structure Dict (K V : Type) where
  items : List (K × V)
  nodup : (items.map Prod.fst).Nodup

namespace Dict

open List

variable {K V : Type} [DecidableEq K]

def assign (k : K) (v : V) : List (K × V) → List (K × V)
  | [] => [(k, v)]
  | (k', v') :: xs => if k' = k then (k, v) :: xs else (k', v') :: assign k v xs

variable {xs : List (K × V)}

theorem fst_mem_assign {k k' : K} {v : V} :
    k' ∈ (assign k v xs).map Prod.fst ↔ k' = k ∨ k' ∈ xs.map Prod.fst := by
  induction xs with
  | nil => simp [assign]
  | cons x xs ih =>
    obtain ⟨k₀, v₀⟩ := x
    by_cases h : k₀ = k
    · subst h
      simp [assign]
    · simp only [assign, if_neg h, map_cons, mem_cons, ih]
      tauto

theorem nodup_assign {k : K} {v : V} (h : (xs.map Prod.fst).Nodup) :
    ((assign k v xs).map Prod.fst).Nodup := by
  induction xs with
  | nil => simp [assign]
  | cons x xs ih =>
    obtain ⟨k₀, v₀⟩ := x
    obtain ⟨h1, h2⟩ := nodup_cons.mp h
    by_cases hk : k₀ = k
    · subst hk
      simpa [assign] using h
    · rw [assign, if_neg hk, map_cons, nodup_cons, fst_mem_assign]
      exact ⟨fun hmem => hmem.elim hk h1, ih h2⟩

theorem assign_of_notMem {k : K} {v : V} (h : k ∉ xs.map Prod.fst) :
    assign k v xs = xs ++ [(k, v)] := by
  induction xs with
  | nil => rfl
  | cons x xs ih =>
    obtain ⟨k₀, v₀⟩ := x
    rw [map_cons, mem_cons, not_or] at h
    rw [assign, if_neg (Ne.symm h.1), ih h.2, cons_append]

theorem map_fst_assign (k : K) (v : V) (xs : List (K × V)) :
    (assign k v xs).map Prod.fst =
      if k ∈ xs.map Prod.fst then xs.map Prod.fst else xs.map Prod.fst ++ [k] := by
  induction xs with
  | nil => rfl
  | cons x xs ih =>
    obtain ⟨k₀, v₀⟩ := x
    by_cases h : k₀ = k
    · simp [assign, h]
    · have hne : ¬ k = k₀ := fun heq => h heq.symm
      rw [assign, if_neg h, map_cons, map_cons, ih]
      simp only [mem_cons, hne, false_or]
      split
      · rfl
      · rw [cons_append]

theorem assign_assign (k : K) (v v' : V) (xs : List (K × V)) :
    assign k v (assign k v' xs) = assign k v xs := by
  induction xs with
  | nil => simp [assign]
  | cons x xs ih =>
    obtain ⟨k₀, v₀⟩ := x
    by_cases h : k₀ = k
    · simp [assign, h]
    · simp [assign, h, ih]

def empty : Dict K V := ⟨[], nodup_nil⟩

variable (d : Dict K V) (k : K)

def get? : Option V := d.items.lookup k

def set (v : V) : Dict K V := ⟨assign k v d.items, nodup_assign d.nodup⟩

def erase : Dict K V where
  items := d.items.filter (fun p => decide (p.1 ≠ k))
  nodup := d.nodup.sublist (filter_sublist.map _)

def keys : List K := d.items.map Prod.fst

def values : List V := d.items.map Prod.snd

def setAll (d : Dict K V) : List (K × V) → Dict K V
  | [] => d
  | (k, v) :: xs => (d.set k v).setAll xs

def contains : Bool := (d.get? k).isSome

theorem lookup_cons_eq (p : K × V) (xs : List (K × V)) (k : K) :
    (p :: xs).lookup k = if p.1 = k then some p.2 else xs.lookup k := by
  obtain ⟨k', v⟩ := p
  by_cases h : k' = k
  · subst h
    simp
  · have hk : (k == k') = false := by simpa using fun he : k = k' => h he.symm
    simp [lookup_cons, hk, h]

@[simp] theorem get?_empty : (empty : Dict K V).get? k = none := rfl

omit [DecidableEq K] in
theorem eq_of_items {d d' : Dict K V} (h : d.items = d'.items) : d = d' := by
  cases d
  cases d'
  cases h
  rfl

theorem items_setAll {d : Dict K V} (h : ((d.items ++ xs).map Prod.fst).Nodup) :
    (d.setAll xs).items = d.items ++ xs := by
  induction xs generalizing d with
  | nil => exact (append_nil _).symm
  | cons x xs ih =>
    obtain ⟨k, v⟩ := x
    have hnew : k ∉ d.items.map Prod.fst := by
      rw [map_append, nodup_append] at h
      intro hmem
      exact h.2.2 k hmem k mem_cons_self rfl
    have hset : (d.set k v).items = d.items ++ [(k, v)] := assign_of_notMem hnew
    rw [setAll, ih, hset, append_assoc, singleton_append]
    rw [hset, append_assoc, singleton_append]
    exact h

theorem lookup_assign (k k' : K) (v : V) (xs : List (K × V)) :
    (assign k v xs).lookup k' = if k = k' then some v else xs.lookup k' := by
  induction xs with
  | nil => rw [assign, lookup_cons_eq]
  | cons x xs ih =>
    obtain ⟨k₀, v₀⟩ := x
    by_cases h : k₀ = k
    · subst h
      rw [assign, if_pos rfl, lookup_cons_eq, lookup_cons_eq]
      by_cases hk : k₀ = k' <;> simp [hk]
    · rw [assign, if_neg h, lookup_cons_eq, lookup_cons_eq, ih]
      by_cases hk : k = k'
      · subst hk
        simp [h]
      · simp [hk]

theorem lookup_eq_none {k : K} (h : k ∉ xs.map Prod.fst) : xs.lookup k = none := by
  refine lookup_eq_none_iff.mpr fun p hp => ?_
  rw [bne_iff_ne]
  rintro rfl
  exact h (mem_map_of_mem hp)

theorem eq_of_lookup {xs ys : List (K × V)} (hkeys : xs.map Prod.fst = ys.map Prod.fst)
    (hnodup : (xs.map Prod.fst).Nodup) (h : ∀ k, xs.lookup k = ys.lookup k) : xs = ys := by
  induction xs generalizing ys with
  | nil => exact (map_eq_nil_iff.mp hkeys.symm).symm
  | cons x xs ih =>
    cases ys with
    | nil => cases hkeys
    | cons y ys =>
      obtain ⟨k₀, v⟩ := x
      obtain ⟨k', v'⟩ := y
      rw [map_cons, map_cons, cons.injEq] at hkeys
      rw [map_cons, nodup_cons] at hnodup
      obtain ⟨hhead, htail⟩ := hkeys
      dsimp only at hhead
      subst hhead
      have hvalue : some v = some v' := by
        have hk := h k₀
        rw [lookup_cons_eq, lookup_cons_eq, if_pos rfl, if_pos rfl] at hk
        exact hk
      rw [Option.some.inj hvalue, ih htail hnodup.2]
      intro k
      by_cases heq : k₀ = k
      · subst heq
        rw [lookup_eq_none hnodup.1, lookup_eq_none (htail ▸ hnodup.1)]
      · have hk := h k
        rw [lookup_cons_eq, lookup_cons_eq, if_neg heq, if_neg heq] at hk
        exact hk

theorem eq_of_get? {d d' : Dict K V} (hkeys : d.keys = d'.keys) (h : ∀ k, d.get? k = d'.get? k) :
    d = d' :=
  eq_of_items (eq_of_lookup hkeys d.nodup h)

theorem get?_set (k k' : K) (v : V) :
    (d.set k v).get? k' = if k = k' then some v else d.get? k' := lookup_assign k k' v d.items

variable (v : V)

@[simp] theorem get?_set_self : (d.set k v).get? k = some v := by
  rw [get?_set, if_pos rfl]

theorem get?_set_ne {k k' : K} (h : k ≠ k') : (d.set k v).get? k' = d.get? k' := by
  rw [get?_set, if_neg h]

theorem lookup_filter_ne (k k' : K) (xs : List (K × V)) :
    (xs.filter (fun p => decide (p.1 ≠ k))).lookup k' = if k = k' then none else xs.lookup k' := by
  induction xs with
  | nil => simp
  | cons x xs ih =>
    obtain ⟨k₀, v₀⟩ := x
    by_cases h : k₀ = k
    · subst h
      rw [filter_cons_of_neg (by simp), ih, lookup_cons_eq]
      by_cases hk : k₀ = k' <;> simp [hk]
    · rw [filter_cons_of_pos (by simpa using h), lookup_cons_eq, lookup_cons_eq, ih]
      by_cases hk : k = k'
      · subst hk
        simp [h]
      · simp [hk]

theorem get?_erase (k k' : K) :
    (d.erase k).get? k' = if k = k' then none else d.get? k' := lookup_filter_ne k k' d.items

variable {P : K → V → Prop}

theorem forall_set {d : Dict K V} {k : K} {v : V} (h : ∀ k v, d.get? k = some v → P k v)
    (hkv : P k v) :
    ∀ k' v', (d.set k v).get? k' = some v' → P k' v' := by
  intro k' v' hget
  rw [get?_set] at hget
  split_ifs at hget with hk
  · rw [← hk, ← Option.some.inj hget]
    exact hkv
  · exact h k' v' hget

theorem forall_erase {d : Dict K V} (h : ∀ k v, d.get? k = some v → P k v) (k : K) :
    ∀ k' v', (d.erase k).get? k' = some v' → P k' v' := by
  intro k' v' hget
  rw [get?_erase] at hget
  split_ifs at hget
  exact h k' v' hget

theorem get?_eq_some_iff : d.get? k = some v ↔ (k, v) ∈ d.items := by
  obtain ⟨xs, hxs⟩ := d
  simp only [get?]
  induction xs with
  | nil => simp
  | cons x xs ih =>
    obtain ⟨h1, h2⟩ := nodup_cons.mp hxs
    obtain ⟨k₀, v₀⟩ := x
    rw [lookup_cons_eq, mem_cons, Prod.mk.injEq]
    by_cases h : k₀ = k
    · subst h
      have hnot : (k₀, v) ∉ xs := fun hmem => h1 (mem_map.mpr ⟨(k₀, v), hmem, rfl⟩)
      simp [hnot, eq_comm]
    · have hne : k ≠ k₀ := fun he => h he.symm
      simp [h, hne, ih h2]

theorem mem_keys_iff : k ∈ d.keys ↔ ∃ v, d.get? k = some v := by
  simp only [get?_eq_some_iff, keys, mem_map]
  exact ⟨fun ⟨p, hp, hk⟩ => ⟨p.2, hk ▸ hp⟩, fun ⟨v, hv⟩ => ⟨(k, v), hv, rfl⟩⟩

theorem get?_eq_none_iff : d.get? k = none ↔ k ∉ d.keys := by
  rw [mem_keys_iff, ← Option.ne_none_iff_exists', not_not]

theorem contains_iff : d.contains k = true ↔ k ∈ d.keys := by
  rw [contains, Option.isSome_iff_exists, mem_keys_iff]

theorem get?_eq_none_of_contains {d : Dict K V} {k : K} (h : d.contains k = false) :
    d.get? k = none :=
  Option.not_isSome_iff_eq_none.mp (Bool.eq_false_iff.mp h)

theorem mem_keys_set (k k' : K) (v : V) :
    k' ∈ (d.set k v).keys ↔ k' = k ∨ k' ∈ d.keys := fst_mem_assign

theorem contains_set_iff (k k' : K) (v : V) :
    (d.set k v).contains k' = true ↔ k' = k ∨ d.contains k' = true := by
  rw [contains_iff, contains_iff, mem_keys_set]

theorem contains_erase_iff (k k' : K) :
    (d.erase k).contains k' = true ↔ d.contains k' = true ∧ k' ≠ k := by
  rw [contains, get?_erase]
  split_ifs with heq
  · exact ⟨fun h => absurd h Bool.false_ne_true, fun h => absurd heq.symm h.2⟩
  · exact (and_iff_left fun h => heq h.symm).symm

variable {W : Type}

def filterMapValues (d : Dict K V) (f : V → Option W) : Dict K W where
  items := d.items.filterMap (fun p => (f p.2).map (fun w => (p.1, w)))
  nodup := by
    have hsub : ∀ xs : List (K × V),
        ((xs.filterMap (fun p => (f p.2).map (fun w => (p.1, w)))).map Prod.fst).Sublist
          (xs.map Prod.fst) := by
      intro xs
      induction xs with
      | nil => exact .refl _
      | cons x xs ih =>
        cases hf : f x.2 with
        | none => simpa [hf] using ih.cons x.1
        | some w => simpa [hf] using ih.cons_cons x.1
    exact d.nodup.sublist (hsub d.items)

theorem get?_filterMapValues (f : V → Option W) (k : K) :
    (d.filterMapValues f).get? k = (d.get? k).bind f := by
  obtain ⟨xs, hxs⟩ := d
  simp only [get?, filterMapValues]
  induction xs with
  | nil => rfl
  | cons x xs ih =>
    obtain ⟨hnot, hrest⟩ := nodup_cons.mp hxs
    have hih := ih hrest
    obtain ⟨k₀, v₀⟩ := x
    cases hf : f v₀ with
    | none =>
      rw [filterMap_cons_none (by simp [hf]), hih, lookup_cons_eq]
      split_ifs with hk
      · subst hk
        have habsent : xs.lookup k₀ = none := (get?_eq_none_iff ⟨xs, hrest⟩ k₀).mpr hnot
        simp [habsent, hf]
      · rfl
    | some w =>
      rw [filterMap_cons_some (by simp [hf]; rfl), lookup_cons_eq, lookup_cons_eq, hih]
      split_ifs with hk
      · simp [hf]
      · rfl

theorem flatMap_items (f : K × V → List W) (k : K) :
    d.items.flatMap (fun p => if p.1 = k then f p else []) =
      ((d.get? k).map (fun v => f (k, v))).getD [] := by
  obtain ⟨xs, hxs⟩ := d
  simp only [get?]
  induction xs with
  | nil => rfl
  | cons x xs ih =>
    obtain ⟨hnot, hrest⟩ := nodup_cons.mp hxs
    obtain ⟨k₀, v₀⟩ := x
    rw [flatMap_cons, ih hrest, lookup_cons_eq]
    split_ifs with hk
    · subst hk
      have habsent : xs.lookup k₀ = none := (get?_eq_none_iff ⟨xs, hrest⟩ k₀).mpr hnot
      simp [habsent]
    · simp

theorem values_set_perm : ((d.get? k).toList ++ (d.set k v).values).Perm (v :: d.values) := by
  obtain ⟨xs, hxs⟩ := d
  simp only [get?, set, values]
  clear hxs
  induction xs with
  | nil => exact .refl _
  | cons x xs ih =>
    obtain ⟨k₀, v₀⟩ := x
    rw [lookup_cons_eq, assign]
    split_ifs with hk
    · exact .swap _ _ _
    · exact perm_middle.trans ((ih.cons v₀).trans (.swap _ _ _))

theorem items_erase_perm :
    (((d.get? k).map (Prod.mk k)).toList ++ (d.erase k).items).Perm d.items := by
  obtain ⟨xs, hxs⟩ := d
  simp only [get?, erase]
  induction xs with
  | nil => exact .refl _
  | cons x xs ih =>
    obtain ⟨hnot, hrest⟩ := nodup_cons.mp hxs
    obtain ⟨k₀, v₀⟩ := x
    rw [lookup_cons_eq]
    split_ifs with hk
    · subst hk
      have hkept : xs.filter (fun p => decide (p.1 ≠ k₀)) = xs :=
        filter_eq_self.mpr fun p hp => decide_eq_true fun he =>
          hnot (mem_map.mpr ⟨p, hp, he⟩)
      rw [filter_cons_of_neg (by simp), hkept]
      exact .refl _
    · rw [filter_cons_of_pos (by simpa using hk)]
      exact perm_middle.trans ((ih hrest).cons (k₀, v₀))

theorem values_erase_perm : ((d.get? k).toList ++ (d.erase k).values).Perm d.values := by
  have hperm := (d.items_erase_perm k).map Prod.snd
  rw [map_append] at hperm
  cases hget : d.get? k with
  | none =>
    rw [hget] at hperm
    exact hperm
  | some v =>
    rw [hget] at hperm
    exact hperm

theorem items_set_of_none {d : Dict K V} {k : K} (h : d.get? k = none) (v : V) :
    (d.set k v).items = d.items ++ [(k, v)] :=
  assign_of_notMem ((get?_eq_none_iff d k).mp h)

theorem get?_foldl_erase (keys : List K) (k : K) :
    (keys.foldl erase d).get? k = if k ∈ keys then none else d.get? k := by
  induction keys generalizing d with
  | nil => simp
  | cons key keys ih =>
    rw [foldl_cons, ih, get?_erase]
    by_cases hmem : k ∈ keys
    · rw [if_pos hmem, if_pos (mem_cons_of_mem _ hmem)]
    · by_cases hk : key = k
      · simp [hk]
      · have hk' : ¬ k = key := fun h => hk h.symm
        simp [hmem, hk, hk']

theorem values_foldl_erase_perm (items : List (K × V)) (hnodup : (items.map Prod.fst).Nodup)
    (hitems : ∀ p ∈ items, d.get? p.1 = some p.2) :
    (items.map Prod.snd ++ ((items.map Prod.fst).foldl erase d).values).Perm d.values := by
  induction items generalizing d with
  | nil => exact .refl _
  | cons p items ih =>
    obtain ⟨hnot, hrest⟩ := nodup_cons.mp hnodup
    have herase := d.values_erase_perm p.1
    rw [hitems p mem_cons_self] at herase
    refine ((ih (d.erase p.1) hrest fun q hq => ?_).cons p.2).trans herase
    have hne : ¬ p.1 = q.1 := fun h => hnot (h ▸ mem_map_of_mem hq)
    rw [get?_erase, if_neg hne]
    exact hitems q (mem_cons_of_mem _ hq)

theorem values_left_append_perm (d d' : Dict K V) (f : V → W)
    (h : ∀ k v', d'.get? k = some v' → ∃ v, d.get? k = some v ∧ f v = f v') :
    ((d.items.filter (fun p => (d'.get? p.1).isNone)).map (fun p => f p.2) ++ d'.values.map f).Perm
      (d.values.map f) := by
  have hkeys : ((d.items.filter (fun p => !(d'.get? p.1).isNone)).map Prod.fst).Perm d'.keys := by
    refine (perm_ext_iff_of_nodup (d.nodup.sublist (filter_sublist.map _)) d'.nodup).mpr fun k => ?_
    change _ ↔ k ∈ d'.keys
    rw [mem_keys_iff, mem_map]
    constructor
    · rintro ⟨p, hp, rfl⟩
      rw [mem_filter, Bool.not_eq_true', Option.isNone_eq_false_iff] at hp
      exact Option.isSome_iff_exists.mp hp.2
    · rintro ⟨v', hv'⟩
      obtain ⟨v, hv, _⟩ := h k v' hv'
      exact ⟨(k, v), mem_filter.mpr ⟨(get?_eq_some_iff _ _ _).mp hv, by simp [hv']⟩, rfl⟩
  have hstay : ((d.items.filter (fun p => !(d'.get? p.1).isNone)).map (fun p => f p.2)).Perm
      (d'.values.map f) := by
    have hleft : ∀ p ∈ d.items.filter (fun p => !(d'.get? p.1).isNone),
        some (f p.2) = (d.get? p.1).map f := fun p hp => by
      rw [(get?_eq_some_iff d p.1 p.2).mpr (mem_of_mem_filter hp), Option.map_some]
    have hright : ∀ p ∈ d'.items, some (f p.2) = (d.get? p.1).map f := fun p hp => by
      obtain ⟨v, hv, hf⟩ := h p.1 p.2 ((get?_eq_some_iff d' p.1 p.2).mpr hp)
      rw [hv, Option.map_some, hf]
    have hperm := hkeys.map (fun k => (d.get? k).map f)
    rw [keys, map_map, map_map] at hperm
    refine (map_perm_map_iff fun _ _ heq => Option.some.inj heq).mp ?_
    rw [values, map_map, map_map, map_map]
    refine ((List.Perm.of_eq (map_congr_left hleft)).trans hperm).trans ?_
    exact .of_eq (map_congr_left fun p hp => (hright p hp).symm)
  refine (hstay.symm.append_left _).trans ?_
  rw [← map_append, values, map_map]
  exact (filter_append_perm (fun p => (d'.get? p.1).isNone) d.items).map _

def moveToEnd : Dict K V :=
  match d.get? k with
  | none => d
  | some v => (d.erase k).set k v

@[simp] theorem get?_moveToEnd (k k' : K) : (d.moveToEnd k).get? k' = d.get? k' := by
  rw [moveToEnd]
  cases hget : d.get? k with
  | none => rfl
  | some v =>
    rw [get?_set, get?_erase]
    split_ifs with heq
    · rw [← heq, hget]
    · rfl

theorem values_moveToEnd_perm : (d.moveToEnd k).values.Perm d.values := by
  rw [moveToEnd]
  cases hget : d.get? k with
  | none => exact .refl _
  | some v =>
    have hset := (d.erase k).values_set_perm k v
    have herase := d.values_erase_perm k
    rw [get?_erase, if_pos rfl] at hset
    rw [hget] at herase
    exact hset.trans herase

theorem eq_of_nodup_map_values {d : Dict K V} {f : V → W} (h : (d.values.map f).Nodup) {k k' : K}
    {v v' : V} (hk : d.get? k = some v) (hk' : d.get? k' = some v') (hf : f v = f v') :
    k = k' := by
  rw [values, map_map] at h
  exact congrArg Prod.fst (inj_on_of_nodup_map h ((get?_eq_some_iff d k v).mp hk)
    ((get?_eq_some_iff d k' v').mp hk') hf)

theorem mem_values_iff : v ∈ d.values ↔ ∃ k, d.get? k = some v := by
  simp only [get?_eq_some_iff, values, mem_map]
  exact ⟨fun ⟨p, hp, hv⟩ => ⟨p.1, hv ▸ hp⟩, fun ⟨k, hk⟩ => ⟨(k, v), hk, rfl⟩⟩

end Dict
