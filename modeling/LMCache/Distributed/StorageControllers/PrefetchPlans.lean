import LMCache.Distributed.StorageControllers.PrefetchController

namespace LMCache

open Bitmap List Dict

section Plans

variable {n : ℕ} {loadPlan lookupResults : Dict ℕ Bitmap}

theorem get?_trim {m a : ℕ} {bm : Bitmap}
    (h : (trimLoadPlanToFirstNKeys loadPlan n m).get? a = some bm) :
    ∃ bm₀, loadPlan.get? a = some bm₀ ∧ bm = bm₀.and (.ofPrefix n m) := by
  simp only [trimLoadPlanToFirstNKeys] at h
  split_ifs at h with hm
  · simp at h
  · rw [get?_filterMapValues, Option.bind_eq_some_iff] at h
    obtain ⟨bm₀, hget, hbm⟩ := h
    split_ifs at hbm
    exact ⟨bm₀, hget, (Option.some.inj hbm).symm⟩

theorem within_trim (h : PlanWithin n loadPlan lookupResults) (m : ℕ) :
    PlanWithin n (trimLoadPlanToFirstNKeys loadPlan n m) lookupResults := by
  intro a bm hbm
  obtain ⟨bm₀, hget, rfl⟩ := get?_trim hbm
  obtain ⟨hsize, lk, hlk, hsub⟩ := h a bm₀ hget
  refine ⟨by simp [hsize], lk, hlk, fun i hi => hsub i ?_⟩
  rw [test_and, Bool.and_eq_true] at hi
  exact hi.1

theorem lt_of_trim {m a : ℕ} {bm : Bitmap}
    (h : (trimLoadPlanToFirstNKeys loadPlan n m).get? a = some bm) {i : ℕ} (hi : bm.test i = true) :
    i < m := by
  obtain ⟨bm₀, _, rfl⟩ := get?_trim h
  rw [test_and, Bool.and_eq_true, test_ofPrefix, decide_eq_true_eq] at hi
  exact hi.2.2

end Plans

namespace PrefetchState

variable {K V : Type}

def unlockedOn (unlocks : List (ℕ × List K)) (a : ℕ) : List K :=
  unlocks.flatMap (fun u => if u.1 = a then u.2 else [])

variable (request : InFlightPrefetchRequest K)

def reportedOn (a : ℕ) : List K :=
  ((request.lookupResults.get? a).map (fun bm => bm.gather request.keys)).getD []

def planOn (a : ℕ) : Bitmap :=
  (request.loadPlan.get? a).getD (.ofSize request.keys.length)

theorem unlockedOn_append (us vs : List (ℕ × List K)) (a : ℕ) :
    unlockedOn (us ++ vs) a = unlockedOn us a ++ unlockedOn vs a := flatMap_append

theorem unlockedOn_map (d : Dict ℕ V) (f : ℕ × V → List K) (a : ℕ) :
    unlockedOn (d.items.map (fun p => (p.1, f p))) a =
      ((d.get? a).map (fun v => f (a, v))).getD [] := by
  rw [← flatMap_items, unlockedOn, flatMap_map]

theorem unlockedOn_filterMap (d : Dict ℕ V) (f : ℕ × V → List K) (a : ℕ) :
    unlockedOn (d.items.filterMap (fun p => if (f p).isEmpty then none else some (p.1, f p))) a =
      ((d.get? a).map (fun v => f (a, v))).getD [] := by
  rw [← flatMap_items, unlockedOn]
  induction d.items with
  | nil => rfl
  | cons p ps ih =>
    rw [flatMap_cons, ← ih]
    by_cases hempty : (f p).isEmpty = true
    · rw [filterMap_cons_none (by rw [if_pos hempty]), isEmpty_iff.mp hempty]
      simp
    · rw [filterMap_cons_some (by rw [if_neg hempty]), flatMap_cons]

theorem gather_ofSize (keys : List K) (n : ℕ) : (ofSize n).gather keys = [] :=
  eq_nil_iff_forall_not_mem.mpr fun k hk => by
    obtain ⟨i, hi, _⟩ := mem_gather.mp hk
    simp at hi

theorem unlocked_perm {request : InFlightPrefetchRequest K} (hnodup : request.keys.Nodup)
    (hsized : Sized request.keys.length request.lookupResults)
    (hwithin : PlanWithin request.keys.length request.loadPlan request.lookupResults) (a : ℕ) :
    (((request.lookupResults.get? a).map
        (fun bm => (bm.and (planOn request a).not).gather request.keys)).getD [] ++
      (planOn request a).gather request.keys).Perm (reportedOn request a) := by
  rw [reportedOn, planOn]
  cases hlookup : request.lookupResults.get? a with
  | none =>
    have hplan : request.loadPlan.get? a = none := by
      cases hget : request.loadPlan.get? a with
      | none => rfl
      | some bm =>
        obtain ⟨_, lk, hlk, _⟩ := hwithin a bm hget
        simp [hlookup] at hlk
    simp [hplan, gather_ofSize]
  | some lk =>
    have hsize := hsized a lk hlookup
    simp only [Option.map_some, Option.getD_some]
    cases hplan : request.loadPlan.get? a with
    | none =>
      refine gather_diff_perm hnodup ?_ fun i hi => ?_
      · simpa using hsize.symm
      · simp at hi
    | some bm =>
      obtain ⟨hbm, lk', hlk', hsub⟩ := hwithin a bm hplan
      obtain rfl := Option.some.inj (hlookup.symm.trans hlk')
      exact gather_diff_perm hnodup (hbm.trans hsize.symm) hsub

variable (a : ℕ)

theorem unlockedOn_plan :
    unlockedOn (request.loadPlan.items.map (fun p => (p.1, p.2.gather request.keys))) a =
      (planOn request a).gather request.keys := by
  rw [unlockedOn_map request.loadPlan (fun p => p.2.gather request.keys), planOn]
  cases request.loadPlan.get? a with
  | none => exact (gather_ofSize _ _).symm
  | some bm => rfl

variable (s : PrefetchState K)

theorem unlocks_unlockUnneededKeys :
    unlockedOn s.unlockUnneededKeys.unlocks a = unlockedOn s.unlocks a ++
      ((s.request.lookupResults.get? a).map
        (fun bm => (bm.and (planOn s.request a).not).gather s.request.keys)).getD [] := by
  simp only [unlockUnneededKeys, unlockedOn_append]
  rw [unlockedOn_filterMap s.request.lookupResults (fun p =>
    (p.2.and ((s.request.loadPlan.get? p.1).getD (.ofSize s.request.keys.length)).not).gather
      s.request.keys)]
  rfl

theorem unlocks_unlockAllPlanKeys :
    unlockedOn s.unlockAllPlanKeys.unlocks a =
      unlockedOn s.unlocks a ++ (planOn s.request a).gather s.request.keys := by
  simp only [unlockAllPlanKeys, unlockedOn_append, unlockedOn_plan]

theorem unlocks_unlockAllLookups :
    unlockedOn s.unlockAllLookups.unlocks a = unlockedOn s.unlocks a ++ reportedOn s.request a := by
  simp only [unlockAllLookups, unlockedOn_append, reportedOn]
  rw [unlockedOn_filterMap s.request.lookupResults (fun p => p.2.gather s.request.keys)]

theorem resultBitmap_spec :
    (resultBitmap request).size = request.keys.length ∧
      ∀ i, (resultBitmap request).test i = true →
        ∃ a bm, request.loadPlan.get? a = some bm ∧ bm.test i = true := by
  refine foldlRecOn (motive := fun (b : Bitmap) => b.size = request.keys.length ∧
    ∀ i, b.test i = true →
    ∃ a bm, request.loadPlan.get? a = some bm ∧ bm.test i = true) _ _
    ⟨rfl, fun i hi => by simp at hi⟩ ?_
  intro b ⟨hsize, htest⟩ p hp
  cases request.loadResults.get? p.1 with
  | none => exact ⟨hsize, htest⟩
  | some loadBitmap =>
    refine ⟨by rw [size_foldl_set, hsize], fun i hi => ?_⟩
    rcases (test_foldl_set _ _ _).mp hi with hi | ⟨hmem, _⟩
    · exact htest i hi
    · obtain ⟨j, _, hj⟩ := mem_gather.mp hmem
      exact ⟨p.1, p.2, (get?_eq_some_iff _ _ _).mpr hp, mem_getIndices.mp (mem_of_getElem? hj)⟩

variable (ret : Dict K L1OperationResult)

theorem reservedOf_eq :
    reservedOf ret = (ret.filterMapValues (fun r => if r.1 = .success then r.2 else none)).items := by
  simp only [reservedOf, filterMapValues]
  congr 1
  funext p
  split_ifs
  · rfl
  · rfl

theorem nodup_reservedOf : ((reservedOf ret).map Prod.fst).Nodup := by
  rw [reservedOf_eq]
  exact nodup _

variable [DecidableEq K]

theorem mem_reservedOf {ret : Dict K L1OperationResult} {k : K} :
    k ∈ (reservedOf ret).map Prod.fst ↔ ∃ obj, ret.get? k = some (.success, some obj) := by
  rw [reservedOf_eq]
  change k ∈ Dict.keys _ ↔ _
  simp only [mem_keys_iff, get?_filterMapValues, Option.bind_eq_some_iff]
  constructor
  · rintro ⟨obj, ⟨err, o⟩, hget, hobj⟩
    split_ifs at hobj with herr
    dsimp only at herr hobj
    subst herr hobj
    exact ⟨obj, hget⟩
  · rintro ⟨obj, hget⟩
    exact ⟨obj, _, hget, by simp⟩

theorem test_foldl_reserved {reservedKeys : List K} {ps : List (K × ℕ)} {b : Bitmap} {i : ℕ}
    (h : (ps.foldl (fun b p => if p.1 ∈ reservedKeys then b.set p.2 else b) b).test i = true) :
    b.test i = true ∨ ∃ k ∈ reservedKeys, (k, i) ∈ ps := by
  induction ps generalizing b with
  | nil => exact .inl h
  | cons p ps ih =>
    obtain ⟨k, j⟩ := p
    rcases ih h with h | ⟨k', hk', hmem⟩
    · dsimp only at h
      split_ifs at h with hres
      · rw [test_set, Bool.or_eq_true, decide_eq_true_eq] at h
        rcases h with h | ⟨rfl, _⟩
        · exact .inl h
        · exact .inr ⟨k, hres, mem_cons_self⟩
      · exact .inl h
    · exact .inr ⟨k', hk', mem_cons_of_mem _ hmem⟩

variable {keys reservedKeys : List K}

theorem of_test_reservedBitmap {i : ℕ} (h : (reservedBitmap keys reservedKeys).test i = true) :
    ∃ k ∈ reservedKeys, keys[i]? = some k := by
  obtain ⟨k, hk, hmem⟩ := (test_foldl_reserved h).resolve_left (by simp)
  exact ⟨k, hk, mk_mem_zipIdx_iff_getElem?.mp hmem⟩

theorem reserved_of_lt_clo {i : ℕ} (h : i < (reservedBitmap keys reservedKeys).clo) :
    ∃ k ∈ reservedKeys, keys[i]? = some k :=
  of_test_reservedBitmap ((clo_spec _).2.1 i h)

end PrefetchState

end LMCache
