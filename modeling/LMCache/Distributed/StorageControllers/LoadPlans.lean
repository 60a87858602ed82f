import LMCache.Distributed.StorageControllers.PrefetchPlans

namespace LMCache

open DefaultPrefetchPolicy Bitmap List Dict

namespace LoadPlans

variable {n : ℕ} {lookupResults plan : Dict ℕ Bitmap} {adapters : List AdapterDescriptor}

def reports (lookupResults : Dict ℕ Bitmap) (a i : ℕ) : Bool :=
  ((lookupResults.get? a).map fun bm => bm.test i).getD false

def assigned (lookupResults : Dict ℕ Bitmap) (adapters : List AdapterDescriptor) (i : ℕ) :
    Option ℕ :=
  (adapters.find? fun ad => reports lookupResults ad.index i).map AdapterDescriptor.index

def Holds (plan : Dict ℕ Bitmap) (a i : ℕ) : Prop :=
  ∃ bm, plan.get? a = some bm ∧ bm.test i = true

theorem test_foldl_or {bitmaps : List Bitmap} (h : ∀ bm ∈ bitmaps, bm.size = n) {b : Bitmap}
    (hb : b.size = n) (i : ℕ) :
    (bitmaps.foldl Bitmap.or b).test i = true ↔
      b.test i = true ∨ ∃ bm ∈ bitmaps, bm.test i = true := by
  induction bitmaps generalizing b with
  | nil => simp
  | cons bm bitmaps ih =>
    have hbm := h bm mem_cons_self
    have hrest : ∀ c ∈ bitmaps, c.size = n := fun c hc => h c (mem_cons_of_mem _ hc)
    have hor : (b.or bm).size = n := by rw [Bitmap.size_or, hb, hbm, Nat.min_self]
    rw [foldl_cons, ih hrest hor, Bitmap.test_or (hb.trans hbm.symm), Bool.or_eq_true,
      exists_mem_cons_iff, or_assoc]

theorem test_merged (hsized : Sized n plan) (i : ℕ) :
    (plan.values.foldl Bitmap.or (.ofSize n)).test i = true ↔ ∃ a, Holds plan a i := by
  have hvalues : ∀ bm ∈ plan.values, bm.size = n := by
    intro bm hbm
    obtain ⟨a, ha⟩ := (mem_values_iff _ _).mp hbm
    exact hsized a bm ha
  rw [test_foldl_or hvalues rfl]
  constructor
  · rintro (hnew | ⟨bm, hbm, hi⟩)
    · simp at hnew
    · obtain ⟨a, ha⟩ := (mem_values_iff _ _).mp hbm
      exact ⟨a, bm, ha, hi⟩
  · rintro ⟨a, bm, ha, hi⟩
    exact .inr ⟨bm, (mem_values_iff _ _).mpr ⟨a, ha⟩, hi⟩

theorem test_mergeBitmaps (hsized : Sized n plan) (i : ℕ) :
    (mergeBitmaps plan.values n).test i = true ↔ ∃ a, Holds plan a i := by
  rw [mergeBitmaps]
  split_ifs with hempty
  · refine iff_of_false (by simp) ?_
    rintro ⟨a, bm, hbm, -⟩
    have hmem := (mem_values_iff _ _).mpr ⟨a, hbm⟩
    rw [isEmpty_iff.mp hempty] at hmem
    exact absurd hmem not_mem_nil
  · exact test_merged hsized i

theorem assigned_concat (i : ℕ) (ad : AdapterDescriptor) :
    assigned lookupResults (adapters ++ [ad]) i =
      (assigned lookupResults adapters i).or
        (if reports lookupResults ad.index i then some ad.index else none) := by
  rw [assigned, find?_append, assigned]
  cases adapters.find? fun ad => reports lookupResults ad.index i with
  | some first => rfl
  | none =>
    rw [find?_singleton]
    cases reports lookupResults ad.index i with
    | true => rfl
    | false => rfl

theorem reports_of_assigned {a i : ℕ} (h : assigned lookupResults adapters i = some a) :
    reports lookupResults a i = true ∧ ∃ ad ∈ adapters, ad.index = a := by
  obtain ⟨ad, hfind, rfl⟩ := Option.map_eq_some_iff.mp h
  exact ⟨by simpa using find?_some hfind, ad, mem_of_find?_eq_some hfind, rfl⟩

variable {ad : AdapterDescriptor} {i : ℕ}

theorem assigned_isSome (hmem : ad ∈ adapters) (h : reports lookupResults ad.index i = true) :
    assigned lookupResults adapters i ≠ none := by
  rw [assigned, Ne, Option.map_eq_none_iff, find?_eq_none]
  exact fun hnone => hnone ad hmem h

structure Selected (n : ℕ) (lookupResults : Dict ℕ Bitmap) (adapters : List AdapterDescriptor)
    (s : LoadSelection) : Prop where
  size : s.globalBitmap.size = n
  left : ∀ i, s.globalBitmap.test i = true ↔
    (∃ a, Holds lookupResults a i) ∧ assigned lookupResults adapters i = none
  sized : Sized n s.plan
  holds : ∀ a i, Holds s.plan a i ↔ assigned lookupResults adapters i = some a
  nonempty : ∀ a bm, s.plan.get? a = some bm → ∃ i, bm.test i = true

variable {s : LoadSelection}

theorem Selected.taken (h : Selected n lookupResults adapters s) {curr : Bitmap}
    (hget : lookupResults.get? ad.index = some curr) (i : ℕ) :
    (s.globalBitmap.and curr).test i = true ↔
      assigned lookupResults adapters i = none ∧ reports lookupResults ad.index i = true := by
  have hreports : reports lookupResults ad.index i = curr.test i := by
    rw [reports, hget]
    rfl
  rw [test_and, Bool.and_eq_true, h.left, hreports]
  constructor
  · rintro ⟨⟨-, hfree⟩, hi⟩
    exact ⟨hfree, hi⟩
  · rintro ⟨hfree, hi⟩
    exact ⟨⟨⟨ad.index, curr, hget, hi⟩, hfree⟩, hi⟩

variable {localBitmap : Bitmap}

theorem assigned_of_taken (htaken : localBitmap.test i = true ↔
      assigned lookupResults adapters i = none ∧ reports lookupResults ad.index i = true) :
    assigned lookupResults (adapters ++ [ad]) i =
      if localBitmap.test i = true then some ad.index else assigned lookupResults adapters i := by
  rw [assigned_concat]
  cases hbefore : assigned lookupResults adapters i with
  | some a =>
    rw [hbefore] at htaken
    have hfalse : ¬ localBitmap.test i = true := fun htest => by simpa using (htaken.mp htest).1
    rw [if_neg hfalse]
    rfl
  | none =>
    rw [hbefore] at htaken
    simp only [htaken, true_and]
    rfl

theorem Selected.left_of_taken (h : Selected n lookupResults adapters s)
    (hsize : localBitmap.size = n) (hassigned : assigned lookupResults (adapters ++ [ad]) i =
      if localBitmap.test i = true then some ad.index else assigned lookupResults adapters i) :
    (s.globalBitmap.and localBitmap.not).test i = true ↔
      (∃ a, Holds lookupResults a i) ∧ assigned lookupResults (adapters ++ [ad]) i = none := by
  rw [test_and, Bool.and_eq_true, test_not, hsize, hassigned]
  by_cases htest : localBitmap.test i = true
  · simp [htest]
  · rw [if_neg htest, ← h.left, Bool.eq_false_iff.mpr htest, Bool.not_false, Bool.and_true,
      decide_eq_true_eq]
    refine ⟨fun hi => hi.1, fun hi => ⟨hi, ?_⟩⟩
    rw [← h.size]
    exact lt_of_test hi

theorem ne_assigned_of_taken {i i' : ℕ} (hfree : assigned lookupResults adapters i = none)
    (hreport : reports lookupResults ad.index i = true) :
    assigned lookupResults adapters i' ≠ some ad.index := by
  intro hi'
  obtain ⟨-, ad', hmem, hindex⟩ := reports_of_assigned hi'
  rw [← hindex] at hreport
  exact assigned_isSome hmem hreport hfree

theorem Selected.assign (hsized : Sized n lookupResults) (h : Selected n lookupResults adapters s)
    (ad : AdapterDescriptor) :
    Selected n lookupResults (adapters ++ [ad]) (assign lookupResults s ad) := by
  rw [DefaultPrefetchPolicy.assign]
  cases hget : lookupResults.get? ad.index with
  | none =>
    have hsame : ∀ i, assigned lookupResults (adapters ++ [ad]) i =
        assigned lookupResults adapters i := by
      intro i
      rw [assigned_concat, reports, hget]
      exact Option.or_none
    exact ⟨h.size, fun i => by rw [h.left, hsame], h.sized, fun a i => by rw [h.holds, hsame],
      h.nonempty⟩
  | some curr =>
    have htaken := h.taken hget
    have hlocal : (s.globalBitmap.and curr).size = n := by
      rw [size_and, h.size, hsized ad.index curr hget, Nat.min_self]
    simp only
    generalize s.globalBitmap.and curr = localBitmap at htaken hlocal ⊢
    have hassigned := fun i => assigned_of_taken (htaken i)
    have hleft := fun i => h.left_of_taken hlocal (hassigned i)
    have hsize : (s.globalBitmap.and localBitmap.not).size = n := by
      rw [size_and, size_not, h.size, hlocal, Nat.min_self]
    split_ifs with hempty
    · have hnone := popcount_eq_zero.mp hempty
      refine ⟨hsize, hleft, h.sized, fun a i => ?_, h.nonempty⟩
      rw [h.holds, hassigned, hnone, if_neg Bool.false_ne_true]
    · have hsome : ∃ i, localBitmap.test i = true := by
        by_contra hno
        refine hempty (popcount_eq_zero.mpr fun i => ?_)
        exact Bool.eq_false_iff.mpr fun hi => hno ⟨i, hi⟩
      obtain ⟨i₀, hi₀⟩ := hsome
      obtain ⟨hfree, hreport⟩ := (htaken i₀).mp hi₀
      refine ⟨hsize, hleft, forall_set h.sized hlocal, fun a i => ?_,
        forall_set h.nonempty ⟨i₀, hi₀⟩⟩
      rw [Holds, hassigned]
      by_cases ha : ad.index = a
      · subst ha
        simp only [get?_set_self, Option.some.injEq, exists_eq_left']
        split_ifs with htest
        · exact iff_of_true htest rfl
        · exact iff_of_false htest (ne_assigned_of_taken hfree hreport)
      · rw [get?_set_ne _ _ ha, ← Holds, h.holds]
        split_ifs with htest
        · rw [((htaken i).mp htest).1]
          exact iff_of_false (by simp) fun heq => ha (Option.some.inj heq)
        · rfl

theorem selected_start (n : ℕ) (hsized : Sized n lookupResults) :
    Selected n lookupResults [] ⟨lookupResults.values.foldl Bitmap.or (.ofSize n), .empty⟩ where
  size := by
    refine size_foldl_or (fun bm hbm => ?_) rfl
    obtain ⟨a, ha⟩ := (mem_values_iff _ _).mp hbm
    exact hsized a bm ha
  left i := by
    rw [test_merged hsized]
    exact ⟨fun hi => ⟨hi, rfl⟩, fun hi => hi.1⟩
  sized a bm h := by simp at h
  holds a i := by
    refine iff_of_false ?_ (by simp [assigned])
    rintro ⟨bm, hbm, -⟩
    simp at hbm
  nonempty a bm h := by simp at h

theorem selected_foldl (hsized : Sized n lookupResults) (rest : List AdapterDescriptor)
    (h : Selected n lookupResults adapters s) :
    Selected n lookupResults (adapters ++ rest)
      (rest.foldl (DefaultPrefetchPolicy.assign lookupResults) s) := by
  induction rest generalizing adapters s with
  | nil =>
    rw [append_nil]
    exact h
  | cons ad rest ih =>
    rw [append_cons]
    exact ih (h.assign hsized ad)

def Found (lookupResults : Dict ℕ Bitmap) (adapters : List AdapterDescriptor) (i : ℕ) : Prop :=
  ∃ ad ∈ adapters, reports lookupResults ad.index i = true

def Lowest (lookupResults : Dict ℕ Bitmap) (adapters : List AdapterDescriptor) (a i : ℕ) : Prop :=
  (∃ ad ∈ adapters, ad.index = a) ∧ reports lookupResults a i = true ∧
    ∀ ad ∈ adapters, reports lookupResults ad.index i = true → a ≤ ad.index

theorem find?_le {p : AdapterDescriptor → Bool} {first : AdapterDescriptor}
    (hsorted : adapters.Pairwise fun a b => a.index ≤ b.index)
    (h : adapters.find? p = some first) :
    ∀ ad ∈ adapters, p ad = true → first.index ≤ ad.index := by
  induction hsorted with
  | nil => simp at h
  | @cons ad adapters hle hrest ih =>
    rw [find?_cons] at h
    intro ad' hmem hp
    cases had : p ad with
    | true =>
      rw [had] at h
      obtain rfl := Option.some.inj h
      rcases mem_cons.mp hmem with rfl | hlater
      · exact Nat.le_refl _
      · exact hle ad' hlater
    | false =>
      rw [had] at h
      rcases mem_cons.mp hmem with rfl | hlater
      · simp [had] at hp
      · exact ih h ad' hlater hp

theorem assigned_eq_some_iff (hsorted : adapters.Pairwise fun a b => a.index ≤ b.index) {a i : ℕ} :
    assigned lookupResults adapters i = some a ↔ Lowest lookupResults adapters a i := by
  constructor
  · intro h
    obtain ⟨hreport, hmem⟩ := reports_of_assigned h
    obtain ⟨first, hfind, rfl⟩ := Option.map_eq_some_iff.mp h
    exact ⟨hmem, hreport, find?_le hsorted hfind⟩
  · rintro ⟨⟨ad, hmem, rfl⟩, hreport, hlowest⟩
    obtain ⟨a, ha⟩ := Option.ne_none_iff_exists'.mp (assigned_isSome hmem hreport)
    obtain ⟨hreport', ad', hmem', rfl⟩ := reports_of_assigned ha
    obtain ⟨first, hfind, hindex⟩ := Option.map_eq_some_iff.mp ha
    have hle := find?_le hsorted hfind ad hmem hreport
    rw [hindex] at hle
    rw [ha, Nat.le_antisymm hle (hlowest ad' hmem' hreport')]

theorem lowest_of_found (h : Found lookupResults adapters i) :
    ∃ a, Lowest lookupResults adapters a i := by
  obtain ⟨ad, hmem, hreport⟩ := h
  have hexists : ∃ a, (∃ ad ∈ adapters, ad.index = a) ∧ reports lookupResults a i = true :=
    ⟨ad.index, ⟨ad, hmem, rfl⟩, hreport⟩
  classical
  obtain ⟨hmem', hreport'⟩ := Nat.find_spec hexists
  refine ⟨Nat.find hexists, hmem', hreport', fun ad' hlater hreport'' => ?_⟩
  exact Nat.find_le ⟨⟨ad', hlater, rfl⟩, hreport''⟩

theorem lowest_unique {a a' i : ℕ} (h : Lowest lookupResults adapters a i)
    (h' : Lowest lookupResults adapters a' i) : a = a' := by
  obtain ⟨⟨ad, hmem, rfl⟩, hreport, hle⟩ := h
  obtain ⟨⟨ad', hmem', rfl⟩, hreport', hle'⟩ := h'
  exact Nat.le_antisymm (hle ad' hmem' hreport') (hle' ad hmem hreport)

theorem selected_selectLoadPlan (hsized : Sized n lookupResults)
    (adapters : List AdapterDescriptor) :
    Sized n (selectLoadPlan n lookupResults adapters) ∧
      ∀ a i, Holds (selectLoadPlan n lookupResults adapters) a i ↔
        Lowest lookupResults adapters a i := by
  have hselected := selected_foldl hsized
    (adapters.insertionSort fun a b => a.index ≤ b.index) (selected_start n hsized)
  rw [nil_append] at hselected
  have hsorted := pairwise_insertionSort
    (fun a b : AdapterDescriptor => a.index ≤ b.index) adapters
  refine ⟨hselected.sized, fun a i => ?_⟩
  rw [selectLoadPlan, hselected.holds, assigned_eq_some_iff hsorted]
  simp only [Lowest, mem_insertionSort]

theorem holds_trim (hsized : Sized n plan) (m a i : ℕ) :
    Holds (trimLoadPlanToFirstNKeys plan n m) a i ↔ Holds plan a i ∧ i < m := by
  constructor
  · rintro ⟨bm, hbm, hi⟩
    refine ⟨?_, lt_of_trim hbm hi⟩
    obtain ⟨bm₀, hget, rfl⟩ := get?_trim hbm
    rw [test_and, Bool.and_eq_true] at hi
    exact ⟨bm₀, hget, hi.1⟩
  · rintro ⟨⟨bm, hget, hi⟩, hlt⟩
    have htest : (bm.and (.ofPrefix n m)).test i = true := by
      have hn : i < n := by
        rw [← hsized a bm hget]
        exact lt_of_test hi
      rw [test_and, hi, test_ofPrefix]
      simp [hn, hlt]
    have hkept : ¬ (bm.and (.ofPrefix n m)).popcount = 0 := fun hzero => by
      simp [popcount_eq_zero.mp hzero i] at htest
    refine ⟨_, ?_, htest⟩
    rw [trimLoadPlanToFirstNKeys, if_neg (by omega : ¬ m = 0), get?_filterMapValues, hget,
      Option.bind_some, if_neg hkept]

theorem nonempty_trim {m a : ℕ} {bm : Bitmap}
    (h : (trimLoadPlanToFirstNKeys plan n m).get? a = some bm) : ∃ i, bm.test i = true := by
  rw [trimLoadPlanToFirstNKeys] at h
  split_ifs at h with hm
  · simp at h
  · rw [get?_filterMapValues, Option.bind_eq_some_iff] at h
    obtain ⟨bm₀, -, hbm⟩ := h
    simp only at hbm
    split_ifs at hbm with hkept
    rw [← Option.some.inj hbm]
    by_contra hno
    refine hkept (popcount_eq_zero.mpr fun i => ?_)
    exact Bool.eq_false_iff.mpr fun hi => hno ⟨i, hi⟩

theorem test_scatter (loadResults : Dict ℕ Bitmap) {scatter : Bitmap → ℕ × Bitmap → Bitmap}
    (hnone : ∀ result p, loadResults.get? p.1 = none → scatter result p = result)
    (hsome : ∀ result p load, loadResults.get? p.1 = some load →
      scatter result p = (load.gather p.2.getIndices).foldl set result)
    (items : List (ℕ × Bitmap)) (result : Bitmap) (i : ℕ) :
    (items.foldl scatter result).test i = true ↔
      result.test i = true ∨ i < result.size ∧
        ∃ p ∈ items, ∃ load, loadResults.get? p.1 = some load ∧ i ∈ load.gather p.2.getIndices := by
  induction items generalizing result with
  | nil => simp
  | cons p items ih =>
    rw [foldl_cons, ih, exists_mem_cons_iff]
    cases hload : loadResults.get? p.1 with
    | none =>
      rw [hnone result p hload]
      simp
    | some load =>
      rw [hsome result p load hload, size_foldl_set, test_foldl_set]
      simp only [Option.some.injEq, exists_eq_left']
      tauto

variable {K : Type}

theorem test_resultBitmap (request : InFlightPrefetchRequest K)
    (hsized : Sized request.keys.length request.loadPlan) (i : ℕ) :
    (PrefetchState.resultBitmap request).test i = true ↔
      ∃ a bm load j, request.loadPlan.get? a = some bm ∧ request.loadResults.get? a = some load ∧
        load.test j = true ∧ bm.getIndices[j]? = some i := by
  rw [PrefetchState.resultBitmap, test_scatter request.loadResults
    (fun result p h => by simp only [h]) (fun result p load h => by simp only [h]),
    test_ofSize, size_ofSize]
  constructor
  · rintro (hnew | ⟨-, p, hp, load, hload, hmem⟩)
    · exact absurd hnew Bool.false_ne_true
    · obtain ⟨j, hj, hindex⟩ := mem_gather.mp hmem
      exact ⟨p.1, p.2, load, j, (get?_eq_some_iff _ _ _).mpr hp, hload, hj, hindex⟩
  · rintro ⟨a, bm, load, j, hplan, hload, hj, hindex⟩
    have htest := mem_getIndices.mp (mem_of_getElem? hindex)
    refine .inr ⟨?_, (a, bm), (get?_eq_some_iff _ _ _).mp hplan, load, hload,
      mem_gather.mpr ⟨j, hj, hindex⟩⟩
    rw [← hsized a bm hplan]
    exact lt_of_test htest

theorem size_merged {plan : Dict ℕ Bitmap} (hplan : Sized n plan) :
    (plan.values.foldl Bitmap.or (.ofSize n)).size = n := by
  refine size_foldl_or (fun bm hbm => ?_) rfl
  obtain ⟨a, ha⟩ := (mem_values_iff _ _).mp hbm
  exact hplan a bm ha

theorem exists_holds_iff (hsized : Sized n lookupResults) (adapters : List AdapterDescriptor)
    (i : ℕ) : (∃ a, Holds (selectLoadPlan n lookupResults adapters) a i) ↔
      Found lookupResults adapters i := by
  obtain ⟨-, hselect⟩ := selected_selectLoadPlan hsized adapters
  simp only [hselect]
  refine ⟨?_, lowest_of_found⟩
  rintro ⟨a, ⟨ad, hmem, rfl⟩, hreport, -⟩
  exact ⟨ad, hmem, hreport⟩

theorem trimLoadPlanToPrefix_spec (hsized : Sized n lookupResults)
    (adapters : List AdapterDescriptor) : ∃ p ≤ n, (∀ i, i < p → Found lookupResults adapters i) ∧
      (p < n → ¬ Found lookupResults adapters p) ∧
      trimLoadPlanToPrefix (selectLoadPlan n lookupResults adapters) n =
        trimLoadPlanToFirstNKeys (selectLoadPlan n lookupResults adapters) n p := by
  obtain ⟨hselectSized, -⟩ := selected_selectLoadPlan hsized adapters
  have hmerged := test_merged hselectSized
  have hsize := size_merged hselectSized
  have hfound := exists_holds_iff hsized adapters
  simp only [trimLoadPlanToPrefix]
  generalize (selectLoadPlan n lookupResults adapters).values.foldl Bitmap.or (.ofSize n) = merged
    at hsize hmerged
  obtain ⟨hle, hbefore, hat⟩ := merged.clo_spec
  rw [hsize] at hle hat
  refine ⟨merged.clo, hle, fun i hi => ?_, fun hlt hfoundAt => ?_, rfl⟩
  · exact (hfound i).mp ((hmerged i).mp (hbefore i hi))
  · have htest := (hmerged merged.clo).mpr ((hfound merged.clo).mpr hfoundAt)
    rw [hat hlt] at htest
    exact absurd htest Bool.false_ne_true

theorem loadPlan_correct (hsized : Sized n lookupResults) (adapters : List AdapterDescriptor) :
    ∃ p, p ≤ n ∧ (∀ i, i < p → Found lookupResults adapters i) ∧
      (p < n → ¬ Found lookupResults adapters p) ∧
      ∀ plan, plan = trimLoadPlanToPrefix (selectLoadPlan n lookupResults adapters) n →
        (∀ a bm, plan.get? a = some bm → bm.size = n ∧ (∃ i, bm.test i = true) ∧
          ∃ lookup, lookupResults.get? a = some lookup ∧
            ∀ i, bm.test i = true → lookup.test i = true) ∧
        (∀ a a' bm bm', plan.get? a = some bm → plan.get? a' = some bm' → a ≠ a' →
          ∀ i, ¬ (bm.test i = true ∧ bm'.test i = true)) ∧
        (∀ i, (∃ a bm, plan.get? a = some bm ∧ bm.test i = true) ↔ i < p) ∧
        (∀ a i, (∃ bm, plan.get? a = some bm ∧ bm.test i = true) ↔
          i < p ∧ Lowest lookupResults adapters a i) ∧
        (∀ i, (mergeBitmaps plan.values n).test i = true ↔ i < p) ∧
        ∀ request : InFlightPrefetchRequest K, request.keys.length = n → request.loadPlan = plan →
          ∀ i, (PrefetchState.resultBitmap request).test i = true ↔
            ∃ a bm load j, plan.get? a = some bm ∧ request.loadResults.get? a = some load ∧
              load.test j = true ∧ bm.getIndices[j]? = some i := by
  obtain ⟨hselectSized, hselect⟩ := selected_selectLoadPlan hsized adapters
  obtain ⟨p, hle, hfound, hstop, htrim⟩ := trimLoadPlanToPrefix_spec hsized adapters
  refine ⟨p, hle, hfound, hstop, fun plan hplan => ?_⟩
  rw [htrim] at hplan
  have hwithin := within_trim (within_selectLoadPlan hsized adapters) p
  have hholds : ∀ a i, Holds plan a i ↔ i < p ∧ Lowest lookupResults adapters a i := by
    intro a i
    rw [hplan, holds_trim hselectSized, hselect, and_comm]
  have hunion : ∀ i, (∃ a, Holds plan a i) ↔ i < p := by
    intro i
    constructor
    · rintro ⟨a, hi⟩
      exact ((hholds a i).mp hi).1
    · intro hi
      obtain ⟨a, hlowest⟩ := lowest_of_found (hfound i hi)
      exact ⟨a, (hholds a i).mpr ⟨hi, hlowest⟩⟩
  rw [← hplan] at hwithin
  have hplanSized : Sized n plan := fun a bm hbm => (hwithin a bm hbm).1
  refine ⟨fun a bm hbm => ?_, fun a a' bm bm' hbm hbm' hne i hi => ?_, hunion, hholds,
    fun i => ?_, fun request hkeys hrequest i => ?_⟩
  · obtain ⟨hsize, hlookup⟩ := hwithin a bm hbm
    rw [hplan] at hbm
    exact ⟨hsize, nonempty_trim hbm, hlookup⟩
  · have hlowest := ((hholds a i).mp ⟨bm, hbm, hi.1⟩).2
    have hlowest' := ((hholds a' i).mp ⟨bm', hbm', hi.2⟩).2
    exact hne (lowest_unique hlowest hlowest')
  · rw [test_mergeBitmaps hplanSized, hunion]
  · rw [← hrequest]
    apply test_resultBitmap
    rw [hkeys, hrequest]
    exact hplanSized

def sampleLookups : Dict ℕ Bitmap :=
  (empty.set 0 ((ofSize 3).set 0)).set 1 (((ofSize 3).set 0).set 1)

theorem loadPlan_correct_sampleLookups :
    Sized 3 sampleLookups ∧ ∃ p, p ≤ 3 ∧ ∀ i,
      (∃ a, Holds (trimLoadPlanToPrefix (selectLoadPlan 3 sampleLookups [⟨1⟩, ⟨0⟩]) 3) a i) ↔
        i < p := by
  have hsized : Sized 3 sampleLookups :=
    forall_set (forall_set (fun a bm h => by simp at h) rfl) rfl
  obtain ⟨p, hle, -, -, hplan⟩ := loadPlan_correct (K := ℕ) hsized [⟨1⟩, ⟨0⟩]
  exact ⟨hsized, p, hle, (hplan _ rfl).2.2.1⟩

end LoadPlans

end LMCache
