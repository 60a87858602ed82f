import LMCache.StorageBackend.BatchedPut

namespace LMCache

open List MemoryObjData

variable {K Λ B : Type}

def Paired (keys : List K) (memoryObjs : List (MemoryObjData Λ B))
    (entry : List K × List (MemoryObjData Λ B)) : Prop :=
  ∀ p ∈ entry.1.zip entry.2, ∀ i : ℕ, keys[i]? = some p.1 →
    memoryObjs[i]?.map rawTensor = some p.2.rawTensor

variable {keys : List K} {memoryObjs : List (MemoryObjData Λ B)}

theorem mem_zip_iff {A C : Type} {xs : List A} {ys : List C} {p : A × C} :
    p ∈ xs.zip ys ↔ ∃ k : ℕ, xs[k]? = some p.1 ∧ ys[k]? = some p.2 := by
  simp only [mem_iff_getElem?, getElem?_zip_eq_some]

theorem index_unique (hkeys : keys.Nodup) {key : K} {i j : ℕ} (hi : keys[i]? = some key)
    (hj : keys[j]? = some key) : i = j := by
  obtain ⟨hlt, -⟩ := List.getElem?_eq_some_iff.mp hi
  exact (getElem?_inj hlt hkeys).mp (hi.trans hj.symm)

theorem paired_self (hkeys : keys.Nodup) : Paired keys memoryObjs (keys, memoryObjs) := by
  intro p hp i hi
  obtain ⟨k, hkey, hobj⟩ := mem_zip_iff.mp hp
  obtain rfl := index_unique hkeys hi hkey
  rw [hobj]
  rfl

namespace AllocatorBackend

variable {a : AllocatorBackend K Λ} {obj : MemoryObjData Λ B}

theorem rawTensor_copyObject {p : K × MemoryObjData Λ B} (h : a.copyObject p = some obj) :
    obj.rawTensor = p.2.rawTensor := by
  rw [copyObject] at h
  split at h
  · rename_i bytes hbytes
    rw [← Option.some.inj h, hbytes]
  · exact absurd h (by simp)

abbrev CopiesAt (a : AllocatorBackend K Λ) (keys : List K)
    (memoryObjs : List (MemoryObjData Λ B)) : ℕ → MemoryObjData Λ B → Prop :=
  Passage.KeptAt (fun p => a.contains p.1) a.copyObject (keys.zip memoryObjs)

def missingBefore (a : AllocatorBackend K Λ) (keys : List K) (j : ℕ) : ℕ :=
  (keys.take j).countP fun key => !a.contains key

def KeepsPlaces (a : AllocatorBackend K Λ) (keys : List K)
    (memoryObjs : List (MemoryObjData Λ B)) : Prop :=
  ∀ j obj, a.CopiesAt keys memoryObjs j obj →
    memoryObjs[a.missingBefore keys j]?.map rawTensor = memoryObjs[j]?.map rawTensor

theorem CopiesAt.source {j : ℕ} (h : a.CopiesAt keys memoryObjs j obj) :
    j < keys.length ∧ memoryObjs[j]?.map rawTensor = some obj.rawTensor := by
  obtain ⟨-, p, hp, -, hcopy⟩ := h
  obtain ⟨hkey, hobj⟩ := getElem?_zip_eq_some.mp hp
  obtain ⟨hlt, -⟩ := List.getElem?_eq_some_iff.mp hkey
  refine ⟨hlt, ?_⟩
  rw [hobj, rawTensor_copyObject hcopy]
  rfl

theorem countP_zip {j : ℕ} (h : a.CopiesAt keys memoryObjs j obj) :
    ((keys.zip memoryObjs).take j).countP (fun p => !a.contains p.1) = a.missingBefore keys j := by
  obtain ⟨-, p, hp, -, -⟩ := h
  obtain ⟨-, hobj⟩ := getElem?_zip_eq_some.mp hp
  obtain ⟨hlt, -⟩ := List.getElem?_eq_some_iff.mp hobj
  have hkeys : ((keys.zip memoryObjs).take j).map Prod.fst = keys.take j := by
    rw [zip, take_zipWith, ← zip, map_fst_zip]
    rw [length_take, length_take]
    omega
  rw [missingBefore, ← hkeys, countP_map]
  rfl

theorem missingBefore_le (a : AllocatorBackend K Λ) (keys : List K) (j : ℕ) :
    a.missingBefore keys j ≤ j :=
  Nat.le_trans countP_le_length (length_take_le j keys)

theorem allocated_iff {k : ℕ} :
    (a.allocateAndCopyObjects keys memoryObjs).2[k]? = some obj ↔
      ∃ j, a.CopiesAt keys memoryObjs j obj ∧ a.missingBefore keys j = k := by
  refine Passage.getElem?_collect.trans (exists_congr fun j => and_congr_right fun hcopies => ?_)
  rw [countP_zip hcopies]

theorem key_of_allocated {k : ℕ} (h : (a.allocateAndCopyObjects keys memoryObjs).2[k]? = some obj) :
    (a.allocateAndCopyObjects keys memoryObjs).1[k]? = keys[k]? := by
  obtain ⟨hlt, -⟩ := List.getElem?_eq_some_iff.mp h
  exact getElem?_take_of_lt hlt

theorem paired_iff_keepsPlaces (hkeys : keys.Nodup) :
    Paired keys memoryObjs (a.allocateAndCopyObjects keys memoryObjs) ↔
      a.KeepsPlaces keys memoryObjs := by
  constructor
  · intro hpaired j obj hcopies
    obtain ⟨hlt, hsource⟩ := hcopies.source
    have hle : a.missingBefore keys j ≤ j := a.missingBefore_le keys j
    have hkey : keys[a.missingBefore keys j]? = some (keys[a.missingBefore keys j]) :=
      getElem?_eq_getElem (by omega)
    have hobj := allocated_iff.mpr ⟨j, hcopies, rfl⟩
    rw [hsource]
    exact hpaired (_, obj) (mem_zip_iff.mpr ⟨_, (key_of_allocated hobj).trans hkey, hobj⟩) _ hkey
  · intro hkeeps p hp i hi
    obtain ⟨k, hkey, hobj⟩ := mem_zip_iff.mp hp
    rw [key_of_allocated hobj] at hkey
    obtain rfl := index_unique hkeys hi hkey
    obtain ⟨j, hcopies, rfl⟩ := allocated_iff.mp hobj
    rw [hkeeps j p.2 hcopies]
    exact hcopies.source.2

end AllocatorBackend

namespace StorageManager

variable {mgr : StorageManager K Λ} {location : Option String}

def firstOfClass (bs : List (StorageBackend K Λ)) (cname : String) :
    Option (AllocatorBackend K Λ) :=
  (bs.map StorageBackend.allocatorBackend).find? fun a => a.cname = cname

def entryOf (keys : List K) (memoryObjs : List (MemoryObjData Λ B)) (objDict : ObjDict K Λ B)
    (bs : List (StorageBackend K Λ)) (cname : String) :
    Option (List K × List (MemoryObjData Λ B)) :=
  (objDict.get? cname).or
    ((firstOfClass bs cname).map fun a => a.allocateAndCopyObjects keys memoryObjs)

variable (objDict : ObjDict K Λ B)

theorem get?_addObjs (a : AllocatorBackend K Λ) (cname : String) :
    (addObjs keys memoryObjs objDict a).get? cname = (objDict.get? cname).or
      (if a.cname = cname then some (a.allocateAndCopyObjects keys memoryObjs) else none) := by
  rw [addObjs]
  split_ifs with hcontains hclass hclass
  · subst hclass
    obtain ⟨entry, hentry⟩ := Option.isSome_iff_exists.mp hcontains
    rw [hentry, Option.some_or]
  · rw [Option.or_none]
  · subst hclass
    have habsent : objDict.get? a.cname = none := by
      simpa [Dict.contains] using hcontains
    rw [Dict.get?_set_self, habsent, Option.none_or]
  · rw [Dict.get?_set_ne _ _ hclass, Option.or_none]

theorem entryOf_cons (b : StorageBackend K Λ) (bs : List (StorageBackend K Λ)) (cname : String) :
    entryOf keys memoryObjs objDict (b :: bs) cname =
      entryOf keys memoryObjs (addObjs keys memoryObjs objDict b.allocatorBackend) bs cname := by
  rw [entryOf, entryOf, get?_addObjs, Option.or_assoc, firstOfClass, map_cons, find?_cons]
  split_ifs with hclass
  · rw [decide_eq_true hclass, Option.some_or]
    rfl
  · rw [decide_eq_false hclass, Option.none_or]
    rfl

theorem putLoop_eq (bs : List (StorageBackend K Λ)) (objDict : ObjDict K Λ B) :
    (putLoop keys memoryObjs bs objDict).1 = bs.map fun b =>
      let entry := (entryOf keys memoryObjs objDict bs b.allocatorBackend.cname).getD ([], [])
      ⟨b.name, entry.1, entry.2⟩ := by
  induction bs generalizing objDict with
  | nil => rfl
  | cons b bs ih =>
    have hhead : entryOf keys memoryObjs objDict (b :: bs) b.allocatorBackend.cname =
        (addObjs keys memoryObjs objDict b.allocatorBackend).get? b.allocatorBackend.cname := by
      rw [entryOf, get?_addObjs, if_pos rfl, firstOfClass, map_cons, find?_cons, decide_eq_true rfl]
      rfl
    rw [putLoop, ih, map_cons, hhead]
    simp only [entryOf_cons]

structure CopiesInto (mgr : StorageManager K Λ) (location : Option String)
    (a : AllocatorBackend K Λ) : Prop where
  foreign : ∃ own, mgr.allocatorBackend = some own ∧ own.cname ≠ a.cname
  first : firstOfClass (mgr.selectedBackends location) a.cname = some a

def PairsMatch (mgr : StorageManager K Λ) (location : Option String) (keys : List K)
    (memoryObjs : List (MemoryObjData Λ B)) : Prop :=
  ∀ put, mgr.batchedPut keys memoryObjs location = .ok put →
    ∀ task ∈ put.submitted, Paired keys memoryObjs (task.keys, task.memoryObjs)

variable {bs : List (StorageBackend K Λ)}

theorem firstOfClass_class {cname : String} {a : AllocatorBackend K Λ}
    (h : firstOfClass bs cname = some a) : a.cname = cname := by
  simpa using find?_some h

theorem exists_firstOfClass {b : StorageBackend K Λ} (h : b ∈ bs) :
    ∃ a, firstOfClass bs b.allocatorBackend.cname = some a := by
  refine Option.isSome_iff_exists.mp (find?_isSome.mpr ?_)
  exact ⟨b.allocatorBackend, mem_map_of_mem h, decide_eq_true rfl⟩

theorem mem_of_firstOfClass {cname : String} {a : AllocatorBackend K Λ}
    (h : firstOfClass bs cname = some a) : ∃ b ∈ bs, b.allocatorBackend = a :=
  mem_map.mp (mem_of_find?_eq_some h)

theorem entryOf_own (own : AllocatorBackend K Λ) (bs : List (StorageBackend K Λ))
    (cname : String) :
    entryOf keys memoryObjs (Dict.empty.set own.cname (keys, memoryObjs)) bs cname =
      if own.cname = cname then some (keys, memoryObjs)
      else (firstOfClass bs cname).map fun a => a.allocateAndCopyObjects keys memoryObjs := by
  rw [entryOf, Dict.get?_set, Dict.get?_empty]
  split_ifs
  · rfl
  · rfl

theorem pairsMatch_iff (hkeys : keys.Nodup) :
    mgr.PairsMatch location keys memoryObjs ↔
      ∀ a, mgr.CopiesInto location a → a.KeepsPlaces keys memoryObjs := by
  rw [PairsMatch, batchedPut]
  cases hown : mgr.allocatorBackend with
  | none =>
    refine ⟨fun _ a ha => ?_, fun _ put hput => absurd hput (by simp)⟩
    obtain ⟨own, h, -⟩ := ha.foreign
    exact absurd (hown.symm.trans h) (by simp)
  | some own =>
    simp only [Except.ok.injEq, forall_eq', putLoop_eq, forall_mem_map, entryOf_own]
    constructor
    · intro h a ha
      obtain ⟨own', hsome, hclass⟩ := ha.foreign
      obtain rfl := Option.some.inj (hown.symm.trans hsome)
      obtain ⟨b, hb, rfl⟩ := mem_of_firstOfClass ha.first
      have hpaired := h b hb
      rw [if_neg hclass, ha.first] at hpaired
      exact (AllocatorBackend.paired_iff_keepsPlaces hkeys).mp hpaired
    · intro h b hb
      split_ifs with hclass
      · exact paired_self hkeys
      · obtain ⟨a, hfirst⟩ := exists_firstOfClass hb
        have hcname := firstOfClass_class hfirst
        rw [hfirst]
        refine (AllocatorBackend.paired_iff_keepsPlaces hkeys).mpr (h a ⟨⟨own, hown, ?_⟩, ?_⟩)
        · rw [hcname]
          exact hclass
        · rw [hcname]
          exact hfirst

def withGdsBackend : StorageManager ℕ Unit where
  allocatorBackend := some ⟨"LocalCPUBackend", fun _ => false, fun _ _ => .granted⟩
  storageBackends := [⟨"GdsBackend", ⟨"GdsBackend", fun key => key = 0, fun _ _ => .granted⟩⟩]
  bypassedBackends := []

theorem pairsMatch_iff_withGdsBackend :
    ([0, 1] : List ℕ).Nodup ∧ (withGdsBackend.PairsMatch none [0, 1] [⟨(), some 7⟩, ⟨(), some 7⟩] ↔
      ∀ a, withGdsBackend.CopiesInto none a →
        a.KeepsPlaces [0, 1] [⟨(), some 7⟩, ⟨(), some 7⟩]) :=
  ⟨by decide, pairsMatch_iff (by decide)⟩

theorem not_pairsMatch_contained : ([0, 1] : List ℕ).Nodup ∧
    ¬ withGdsBackend.PairsMatch none [0, 1] [⟨(), some 7⟩, ⟨(), some 8⟩] := by
  refine ⟨by decide, fun h => ?_⟩
  have htask := h ⟨[⟨"GdsBackend", [0], [⟨(), some 8⟩]⟩], [⟨(), some 7⟩, ⟨(), some 8⟩, ⟨(), some 8⟩]⟩
    rfl ⟨"GdsBackend", [0], [⟨(), some 8⟩]⟩ mem_cons_self
  exact absurd (htask (0, ⟨(), some 8⟩) mem_cons_self 0 rfl) (by decide)

end StorageManager

end LMCache
