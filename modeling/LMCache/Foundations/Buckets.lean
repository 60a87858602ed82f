import Mathlib.Data.List.Nodup
import Mathlib.Order.Lattice

namespace Buckets

open List Option

variable {I K : Type} [LinearOrder I] [DecidableEq K]

def addTo (key : K) (keys : List K) : List K := if key ∈ keys then keys else keys ++ [key]

def add (i : I) (key : K) : List (I × List K) → List (I × List K)
  | [] => [(i, [key])]
  | bucket :: buckets =>
      if bucket.1 = i then (i, addTo key bucket.2) :: buckets
      else if i < bucket.1 then (i, [key]) :: bucket :: buckets
      else bucket :: add i key buckets

def pop (i : I) (key : K) : List (I × List K) → Option (List (I × List K))
  | [] => none
  | bucket :: buckets =>
      if bucket.1 = i then
        if key ∈ bucket.2 then
          some (if bucket.2.erase key = [] then buckets else (i, bucket.2.erase key) :: buckets)
        else none
      else (pop i key buckets).map (bucket :: ·)

def entries (buckets : List (I × List K)) : List (I × K) :=
  buckets.flatMap fun bucket => bucket.2.map fun key => (bucket.1, key)

structure WellFormed (buckets : List (I × List K)) : Prop where
  sorted : buckets.Pairwise fun b b' => b.1 < b'.1
  nonempty : ∀ bucket ∈ buckets, bucket.2 ≠ []
  nodup : ∀ bucket ∈ buckets, bucket.2.Nodup

variable {i : I} {key key' : K} {keys : List K} {bucket : I × List K}
  {buckets buckets' : List (I × List K)}

omit [LinearOrder I] [DecidableEq K] in
theorem mem_entries : (i, key) ∈ entries buckets ↔ ∃ keys, (i, keys) ∈ buckets ∧ key ∈ keys := by
  rw [entries, mem_flatMap]
  constructor
  · rintro ⟨bucket, hbucket, hmem⟩
    obtain ⟨key', hkey, heq⟩ := mem_map.mp hmem
    obtain ⟨rfl, rfl⟩ := Prod.mk.inj heq
    exact ⟨bucket.2, hbucket, hkey⟩
  · rintro ⟨keys, hbucket, hkey⟩
    exact ⟨(i, keys), hbucket, mem_map_of_mem hkey⟩

theorem mem_addTo : key' ∈ addTo key keys ↔ key' = key ∨ key' ∈ keys := by
  rw [addTo]
  split_ifs with hmem
  · refine ⟨.inr, ?_⟩
    rintro (rfl | hkeys)
    · exact hmem
    · exact hkeys
  · rw [mem_append, mem_singleton, or_comm]

theorem nodup_addTo (h : keys.Nodup) : (addTo key keys).Nodup := by
  rw [addTo]
  split_ifs with hmem
  · exact h
  · exact h.append (nodup_singleton key) fun k hk hk' => hmem (mem_singleton.mp hk' ▸ hk)

omit [DecidableEq K] in
theorem WellFormed.head_lt (h : WellFormed (bucket :: buckets)) : ∀ b ∈ buckets, bucket.1 < b.1 :=
  (pairwise_cons.mp h.sorted).1

omit [DecidableEq K] in
theorem WellFormed.tail (h : WellFormed (bucket :: buckets)) : WellFormed buckets where
  sorted := (pairwise_cons.mp h.sorted).2
  nonempty b hb := h.nonempty b (mem_cons_of_mem _ hb)
  nodup b hb := h.nodup b (mem_cons_of_mem _ hb)

omit [DecidableEq K] in
theorem WellFormed.cons (h : WellFormed buckets) (hlt : ∀ b ∈ buckets, bucket.1 < b.1)
    (hne : bucket.2 ≠ []) (hnodup : bucket.2.Nodup) : WellFormed (bucket :: buckets) where
  sorted := pairwise_cons.mpr ⟨hlt, h.sorted⟩
  nonempty b hb := by
    rcases mem_cons.mp hb with rfl | hb
    · exact hne
    · exact h.nonempty b hb
  nodup b hb := by
    rcases mem_cons.mp hb with rfl | hb
    · exact hnodup
    · exact h.nodup b hb

theorem fst_mem_add {b : I × List K} (h : b ∈ add i key buckets) :
    b.1 = i ∨ ∃ b' ∈ buckets, b'.1 = b.1 := by
  induction buckets with
  | nil =>
    obtain rfl := mem_singleton.mp h
    exact .inl rfl
  | cons bucket buckets ih =>
    rw [add] at h
    split_ifs at h with heq hlt
    · rcases mem_cons.mp h with rfl | hrest
      · exact .inl rfl
      · exact .inr ⟨b, mem_cons_of_mem _ hrest, rfl⟩
    · rcases mem_cons.mp h with rfl | hrest
      · exact .inl rfl
      · exact .inr ⟨b, hrest, rfl⟩
    · rcases mem_cons.mp h with rfl | hrest
      · exact .inr ⟨b, mem_cons_self, rfl⟩
      · refine (ih hrest).imp_right ?_
        rintro ⟨b', hb', hfst⟩
        exact ⟨b', mem_cons_of_mem _ hb', hfst⟩

theorem WellFormed.add (h : WellFormed buckets) (i : I) (key : K) :
    WellFormed (add i key buckets) := by
  induction buckets with
  | nil => exact h.cons (fun _ hb => nomatch hb) (cons_ne_nil _ _) (nodup_singleton key)
  | cons bucket buckets ih =>
    rw [Buckets.add]
    split_ifs with heq hlt
    · refine h.tail.cons (heq ▸ h.head_lt) ?_
        (nodup_addTo (h.nodup bucket mem_cons_self))
      exact ne_nil_of_mem (mem_addTo.mpr (.inl rfl))
    · refine h.cons (fun b hb => ?_) (cons_ne_nil _ _) (nodup_singleton key)
      rcases mem_cons.mp hb with rfl | hb
      · exact hlt
      · exact hlt.trans (h.head_lt b hb)
    · refine (ih h.tail).cons (fun b hb => ?_) (h.nonempty bucket mem_cons_self)
        (h.nodup bucket mem_cons_self)
      rcases fst_mem_add hb with hfst | ⟨b', hb', hfst⟩
      · rw [hfst]
        exact lt_of_le_of_ne (not_lt.mp hlt) heq
      · rw [← hfst]
        exact h.head_lt b' hb'

theorem mem_of_mem_pop (h : pop i key buckets = some buckets') :
    ∀ b ∈ buckets', b ∈ buckets ∨ b.1 = i ∧ ∃ keys, (i, keys) ∈ buckets := by
  induction buckets generalizing buckets' with
  | nil => cases h
  | cons bucket buckets ih =>
    rw [pop] at h
    split_ifs at h with heq hmem hempty
    · obtain rfl := some.inj h
      exact fun b hb => .inl (mem_cons_of_mem _ hb)
    · obtain rfl := some.inj h
      intro b hb
      rcases mem_cons.mp hb with rfl | hb
      · exact .inr ⟨rfl, bucket.2, heq ▸ mem_cons_self⟩
      · exact .inl (mem_cons_of_mem _ hb)
    · obtain ⟨rest, hrest, rfl⟩ := map_eq_some_iff.mp h
      intro b hb
      rcases mem_cons.mp hb with rfl | hb
      · exact .inl mem_cons_self
      · refine (ih hrest b hb).imp (mem_cons_of_mem _) ?_
        rintro ⟨hfst, keys, hkeys⟩
        exact ⟨hfst, keys, mem_cons_of_mem _ hkeys⟩

theorem WellFormed.pop (h : WellFormed buckets) (hpop : pop i key buckets = some buckets') :
    WellFormed buckets' := by
  induction buckets generalizing buckets' with
  | nil => cases hpop
  | cons bucket buckets ih =>
    rw [Buckets.pop] at hpop
    split_ifs at hpop with heq hmem hempty
    · obtain rfl := some.inj hpop
      exact h.tail
    · obtain rfl := some.inj hpop
      exact h.tail.cons (heq ▸ h.head_lt) hempty ((h.nodup bucket mem_cons_self).erase key)
    · obtain ⟨rest, hrest, rfl⟩ := map_eq_some_iff.mp hpop
      refine (ih h.tail hrest).cons (fun b hb => ?_) (h.nonempty bucket mem_cons_self)
        (h.nodup bucket mem_cons_self)
      rcases mem_of_mem_pop hrest b hb with hb' | ⟨hfst, keys, hkeys⟩
      · exact h.head_lt b hb'
      · rw [hfst]
        exact h.head_lt (i, keys) hkeys

omit [LinearOrder I] [DecidableEq K] in
theorem entries_cons : entries (bucket :: buckets) =
    (bucket.2.map fun key => (bucket.1, key)) ++ entries buckets := rfl

omit [DecidableEq K] in
theorem notMem_entries_of_head (h : WellFormed (bucket :: buckets)) (key : K) :
    (bucket.1, key) ∉ entries buckets := by
  intro hmem
  obtain ⟨keys, hkeys, _⟩ := mem_entries.mp hmem
  exact lt_irrefl bucket.1 (h.head_lt (bucket.1, keys) hkeys)

omit [LinearOrder I] [DecidableEq K] in
theorem mem_head : (i, key) ∈ bucket.2.map (fun key => (bucket.1, key)) ↔
    bucket.1 = i ∧ key ∈ bucket.2 := by
  constructor
  · intro hmem
    obtain ⟨key', hkey', hpair⟩ := mem_map.mp hmem
    obtain ⟨hi, rfl⟩ := Prod.mk.inj hpair
    exact ⟨hi, hkey'⟩
  · rintro ⟨rfl, hkey⟩
    exact mem_map_of_mem hkey

theorem erase_head (key : K) : (bucket.2.map fun key => (bucket.1, key)).erase (bucket.1, key) =
    (bucket.2.erase key).map fun key => (bucket.1, key) :=
  (map_erase (fun _ _ heq => (Prod.mk.inj heq).2) bucket.2).symm

theorem entries_pop (h : WellFormed buckets) (i : I) (key : K) :
    (pop i key buckets).map entries =
      if (i, key) ∈ entries buckets then some ((entries buckets).erase (i, key)) else none := by
  induction buckets with
  | nil => rfl
  | cons bucket buckets ih =>
    rw [pop, entries_cons]
    rcases eq_or_ne bucket.1 i with rfl | hne
    · rw [if_pos rfl]
      rcases Classical.em (key ∈ bucket.2) with hkey | hkey
      · have hhead := mem_head.mpr ⟨rfl, hkey⟩
        rw [if_pos hkey, if_pos (mem_append_left _ hhead), erase_append_left _ hhead, erase_head]
        split_ifs with hempty
        · rw [hempty]
          rfl
        · rfl
      · rw [if_neg hkey, if_neg]
        · rfl
        · intro hmem
          rcases mem_append.mp hmem with hhead | hrest
          · exact hkey (mem_head.mp hhead).2
          · exact notMem_entries_of_head h key hrest
    · have hhead : (i, key) ∉ bucket.2.map fun key => (bucket.1, key) :=
        fun hmem => hne (mem_head.mp hmem).1
      have hih := ih h.tail
      rw [if_neg hne, Option.map_map]
      rcases Classical.em ((i, key) ∈ entries buckets) with hrest | hrest
      · rw [if_pos hrest] at hih
        obtain ⟨rest, hpop, hentries⟩ := map_eq_some_iff.mp hih
        rw [if_pos (mem_append_right _ hrest), hpop, erase_append_right _ hhead, ← hentries]
        rfl
      · rw [if_neg hrest] at hih
        rw [if_neg fun hmem => (mem_append.mp hmem).elim hhead hrest, map_eq_none_iff.mp hih]
        rfl

theorem notMem_of_pop (h : WellFormed buckets) (hpop : pop i key buckets = none) :
    (i, key) ∉ entries buckets := by
  intro hmem
  have hentries := entries_pop h i key
  rw [hpop, if_pos hmem] at hentries
  cases hentries

theorem mem_of_pop (h : WellFormed buckets) (hpop : pop i key buckets = some buckets') :
    (i, key) ∈ entries buckets ∧ entries buckets' = (entries buckets).erase (i, key) := by
  have hentries := entries_pop h i key
  rw [hpop] at hentries
  split_ifs at hentries with hmem
  · exact ⟨hmem, some.inj hentries⟩
  · cases hentries

end Buckets
