import LMCache.Foundations.Dict
import LMCache.Foundations.Holdings
import LMCache.Foundations.Loops

namespace LMCache

open Option Multiset Dict

structure MemoryObjData (Λ B : Type) where
  layout : Λ
  rawTensor : Option B
deriving DecidableEq

inductive Allocation where
  | exhausted
  | noRawTensor
  | granted
deriving DecidableEq

structure AllocatorBackend (K Λ : Type) where
  cname : String
  contains : K → Bool
  allocate : K → Λ → Allocation

structure StorageBackend (K Λ : Type) where
  name : String
  allocatorBackend : AllocatorBackend K Λ

structure StorageManager (K Λ : Type) where
  allocatorBackend : Option (AllocatorBackend K Λ)
  storageBackends : List (StorageBackend K Λ)
  bypassedBackends : List String

structure PutTask (K Λ B : Type) where
  backend : String
  keys : List K
  memoryObjs : List (MemoryObjData Λ B)
deriving DecidableEq

structure BatchedPut (K Λ B : Type) where
  submitted : List (PutTask K Λ B)
  released : List (MemoryObjData Λ B)
deriving DecidableEq

inductive PutError where
  | noAllocatorBackend
deriving DecidableEq

structure CopyFaults where
  before : ℕ → Bool
  after : ℕ → Bool

structure PutFaults (K Λ : Type) where
  manager : StorageManager K Λ
  copies : String → CopyFaults
  submit : String → Bool

variable {K Λ B : Type}

namespace AllocatorBackend

def copyObject (a : AllocatorBackend K Λ) (p : K × MemoryObjData Λ B) : Option (MemoryObjData Λ B) :=
  match a.allocate p.1 p.2.layout, p.2.rawTensor with
  | .granted, some bytes => some ⟨p.2.layout, some bytes⟩
  | _, _ => none

def allocateAndCopyObjects (a : AllocatorBackend K Λ) (keys : List K)
    (srcMemoryObjs : List (MemoryObjData Λ B)) : List K × List (MemoryObjData Λ B) :=
  let allocatedObjects :=
    Passage.collect (fun p => a.contains p.1) a.copyObject (keys.zip srcMemoryObjs)
  (keys.take allocatedObjects.length, allocatedObjects)

end AllocatorBackend

abbrev ObjDict (K Λ B : Type) := Dict String (List K × List (MemoryObjData Λ B))

namespace StorageManager

def selected (mgr : StorageManager K Λ) (location : Option String) (b : StorageBackend K Λ) : Bool :=
  (location.all fun l => l = "" ∨ b.name = l) && !mgr.bypassedBackends.contains b.name

def selectedBackends (mgr : StorageManager K Λ) (location : Option String) :
    List (StorageBackend K Λ) :=
  mgr.storageBackends.filter (mgr.selected location)

variable (keys : List K) (memoryObjs : List (MemoryObjData Λ B))

def addObjs (objDict : ObjDict K Λ B) (a : AllocatorBackend K Λ) : ObjDict K Λ B :=
  if objDict.contains a.cname then objDict
  else objDict.set a.cname (a.allocateAndCopyObjects keys memoryObjs)

def putLoop : List (StorageBackend K Λ) → ObjDict K Λ B →
    List (PutTask K Λ B) × ObjDict K Λ B
  | [], objDict => ([], objDict)
  | b :: bs, objDict =>
      let objDict := addObjs keys memoryObjs objDict b.allocatorBackend
      let entry := (objDict.get? b.allocatorBackend.cname).getD ([], [])
      let rest := putLoop bs objDict
      (⟨b.name, entry.1, entry.2⟩ :: rest.1, rest.2)

def batchedPut (mgr : StorageManager K Λ) (location : Option String) :
    Except PutError (BatchedPut K Λ B) :=
  match mgr.allocatorBackend with
  | none => .error .noAllocatorBackend
  | some own =>
      let run := putLoop keys memoryObjs (mgr.selectedBackends location)
        (empty.set own.cname (keys, memoryObjs))
      .ok ⟨run.1, run.2.values.flatMap Prod.snd⟩

end StorageManager

section References

variable {O : Type} (layout : O → Λ) (copyOf : String → ℕ → O)

def AllocatorBackend.copyRefs (a : AllocatorBackend K Λ) (faults : CopyFaults) :
    ℕ → List (K × O) → Holding O (List O)
  | _, [] => pure []
  | i, (key, obj) :: rest =>
      if faults.before i then .raise
      else if a.contains key then a.copyRefs faults (i + 1) rest
      else
        match a.allocate key (layout obj) with
        | .exhausted => pure []
        | .noRawTensor => do
            .take (copyOf a.cname i)
            .drop [copyOf a.cname i]
            return []
        | .granted => do
            .take (copyOf a.cname i)
            if faults.after i then .raise
            else do
              let copies ← a.copyRefs faults (i + 1) rest
              return copyOf a.cname i :: copies

def AllocatorBackend.copiesRaise (a : AllocatorBackend K Λ) (faults : CopyFaults) :
    ℕ → List (K × O) → Bool
  | _, [] => false
  | i, (key, obj) :: rest =>
      faults.before i ||
        if a.contains key then a.copiesRaise faults (i + 1) rest
        else
          match a.allocate key (layout obj) with
          | .granted => faults.after i || a.copiesRaise faults (i + 1) rest
          | _ => false

namespace PutFaults

variable (faults : PutFaults K Λ) (keys : List K) (memoryObjs : List O)

def addRefs (objDict : Dict String (List O)) (a : AllocatorBackend K Λ) :
    Holding O (Dict String (List O)) :=
  if objDict.contains a.cname then pure objDict
  else do
    let copies ← a.copyRefs layout copyOf (faults.copies a.cname) 0 (keys.zip memoryObjs)
    return objDict.set a.cname copies

def submitRefs : List (StorageBackend K Λ) → Dict String (List O) →
    Holding O (Dict String (List O))
  | [], objDict => pure objDict
  | b :: bs, objDict => do
      let objDict ← faults.addRefs layout copyOf keys memoryObjs objDict b.allocatorBackend
      if faults.submit b.name then .raise else submitRefs bs objDict

def batchedPutRefs (location : Option String) : Holding O Unit :=
  match faults.manager.allocatorBackend with
  | none => .raise
  | some own => do
      let objDict ← faults.submitRefs layout copyOf keys memoryObjs
        (faults.manager.selectedBackends location) (empty.set own.cname memoryObjs)
      .drop objDict.values.flatten

def submitsRaise : List (StorageBackend K Λ) → List String → Bool
  | [], _ => false
  | b :: bs, cnames =>
      !cnames.contains b.allocatorBackend.cname &&
          b.allocatorBackend.copiesRaise layout (faults.copies b.allocatorBackend.cname) 0
            (keys.zip memoryObjs) ||
        (faults.submit b.name || submitsRaise bs (b.allocatorBackend.cname :: cnames))

def raises (location : Option String) : Bool :=
  match faults.manager.allocatorBackend with
  | none => true
  | some own => faults.submitsRaise layout keys memoryObjs
      (faults.manager.selectedBackends location) [own.cname]

end PutFaults

section Settled

open Holding

variable {layout copyOf} {faults : PutFaults K Λ} {keys : List K} {memoryObjs : List O}
  {held : Multiset O}

theorem AllocatorBackend.leaves_copyRefs (a : AllocatorBackend K Λ) (faults : CopyFaults) (i : ℕ)
    (pairs : List (K × O)) (h : held ≠ 0) :
    Leaves held (a.copyRefs layout copyOf faults i pairs)
      fun copies => (copies : Multiset O) + held := by
  induction pairs generalizing i held with
  | nil => exact leaves_pure (zero_add held).symm
  | cons pair pairs ih =>
    obtain ⟨key, obj⟩ := pair
    rw [copyRefs]
    split
    · exact leaves_raise h
    · split
      · exact ih (i + 1) h
      · split
        · exact leaves_pure (zero_add held).symm
        · refine (leaves_take _ _).bind fun _ _ => ?_
          exact (leaves_drop [copyOf a.cname i] held).bind fun _ _ =>
            leaves_pure (zero_add held).symm
        · refine (leaves_take _ _).bind fun _ _ => ?_
          split
          · exact leaves_raise (cons_ne_zero)
          · refine (ih (i + 1) cons_ne_zero).bind fun copies _ => leaves_pure ?_
            rw [← cons_coe, cons_add, add_cons]

variable (copyOf) in
theorem AllocatorBackend.isSome_copyRefs (a : AllocatorBackend K Λ) (faults : CopyFaults) (i : ℕ)
    (pairs : List (K × O)) : (a.copyRefs layout copyOf faults i pairs).result.isSome =
      !a.copiesRaise layout faults i pairs := by
  induction pairs generalizing i with
  | nil => rfl
  | cons pair pairs ih =>
    obtain ⟨key, obj⟩ := pair
    rw [copyRefs, copiesRaise]
    cases faults.before i with
    | true => rfl
    | false =>
      rw [if_neg Bool.false_ne_true, Bool.false_or]
      cases a.contains key with
      | true => exact ih (i + 1)
      | false =>
        cases a.allocate key (layout obj) with
        | exhausted => rfl
        | noRawTensor => rfl
        | granted =>
          cases hafter : faults.after i with
          | true => rfl
          | false =>
            simp only [Bool.false_eq_true, if_false, result_bind, result_take, bind_some,
              result_pure, Bool.false_or, ← ih (i + 1)]
            cases (a.copyRefs layout copyOf faults (i + 1) pairs).result with
            | none => rfl
            | some copies => rfl

namespace PutFaults

def holding (objDict : Dict String (List O)) : Multiset O := objDict.values.flatten

theorem holding_set {objDict : Dict String (List O)} {cname : String}
    (h : objDict.contains cname = false) (objs : List O) :
    holding (objDict.set cname objs) = (objs : Multiset O) + holding objDict := by
  have hnone : objDict.get? cname = none := get?_eq_none_of_contains h
  rw [holding, values, items_set_of_none hnone, List.map_append, List.flatten_append,
    ← coe_add, add_comm]
  congr 2
  exact List.append_nil objs

theorem leaves_addRefs (objDict : Dict String (List O)) (a : AllocatorBackend K Λ)
    (h : holding objDict + held ≠ 0) :
    Leaves (holding objDict + held) (faults.addRefs layout copyOf keys memoryObjs objDict a)
      fun objDict => holding objDict + held := by
  rw [addRefs]
  cases hcontains : objDict.contains a.cname with
  | true => exact leaves_pure rfl
  | false =>
    refine (a.leaves_copyRefs (faults.copies a.cname) 0 (keys.zip memoryObjs) h).bind
      fun copies _ => leaves_pure ?_
    rw [holding_set hcontains, add_assoc]

variable {objDict objDict' : Dict String (List O)} {a : AllocatorBackend K Λ}

theorem holding_le_of_addRefs
    (h : (faults.addRefs layout copyOf keys memoryObjs objDict a).result = some objDict') :
    holding objDict ≤ holding objDict' := by
  rw [addRefs] at h
  cases hcontains : objDict.contains a.cname with
  | true =>
    rw [if_pos hcontains] at h
    exact (some.inj h) ▸ le_refl _
  | false =>
    rw [if_neg (hcontains ▸ Bool.false_ne_true), result_bind] at h
    obtain ⟨copies, -, hset⟩ := bind_eq_some_iff.mp h
    obtain rfl := some.inj hset
    rw [holding_set hcontains]
    exact le_add_left _ _

variable (bs : List (StorageBackend K Λ))

theorem leaves_submitRefs (objDict : Dict String (List O)) (h : holding objDict + held ≠ 0) :
    Leaves (holding objDict + held) (faults.submitRefs layout copyOf keys memoryObjs bs objDict)
      fun objDict => holding objDict + held := by
  induction bs generalizing objDict with
  | nil => exact leaves_pure rfl
  | cons b bs ih =>
    rw [submitRefs]
    refine (leaves_addRefs objDict b.allocatorBackend h).bind fun objDict' hadded => ?_
    have hheld : holding objDict' + held ≠ 0 :=
      ne_zero_of_le h (Multiset.add_le_add_right (holding_le_of_addRefs hadded))
    split
    · exact leaves_raise hheld
    · exact ih objDict' hheld

variable (location : Option String)

theorem leaves_batchedPutRefs (h : (memoryObjs : Multiset O) + held ≠ 0) :
    Leaves ((memoryObjs : Multiset O) + held)
      (faults.batchedPutRefs layout copyOf keys memoryObjs location) fun _ => held := by
  rw [batchedPutRefs]
  split
  · exact leaves_raise h
  · next own _ =>
    have hown : holding ((empty : Dict String (List O)).set own.cname memoryObjs) =
        memoryObjs := by
      rw [holding_set rfl]
      exact add_zero _
    rw [← hown] at h ⊢
    exact (leaves_submitRefs _ _ h).bind fun objDict _ => leaves_drop _ _

variable (layout copyOf faults keys memoryObjs) in
theorem isSome_addRefs (objDict : Dict String (List O)) (a : AllocatorBackend K Λ) :
    (faults.addRefs layout copyOf keys memoryObjs objDict a).result.isSome =
      !(!objDict.contains a.cname &&
        a.copiesRaise layout (faults.copies a.cname) 0 (keys.zip memoryObjs)) := by
  rw [addRefs]
  cases objDict.contains a.cname with
  | true => rfl
  | false =>
    rw [if_neg Bool.false_ne_true, result_bind, Bool.not_false, Bool.true_and,
      ← a.isSome_copyRefs copyOf]
    cases (a.copyRefs layout copyOf (faults.copies a.cname) 0 (keys.zip memoryObjs)).result with
    | none => rfl
    | some copies => rfl

theorem contains_of_addRefs
    (h : (faults.addRefs layout copyOf keys memoryObjs objDict a).result = some objDict')
    (cname : String) : objDict'.contains cname = true ↔
      cname = a.cname ∨ objDict.contains cname = true := by
  rw [addRefs] at h
  cases hcontains : objDict.contains a.cname with
  | true =>
    rw [if_pos hcontains] at h
    obtain rfl := some.inj h
    refine ⟨.inr, ?_⟩
    rintro (rfl | hmem)
    · exact hcontains
    · exact hmem
  | false =>
    rw [if_neg (hcontains ▸ Bool.false_ne_true), result_bind] at h
    obtain ⟨copies, -, hset⟩ := bind_eq_some_iff.mp h
    obtain rfl := some.inj hset
    exact contains_set_iff _ _ _ _

theorem isSome_submitRefs {objDict : Dict String (List O)} {cnames : List String}
    (h : ∀ cname, objDict.contains cname = true ↔ cname ∈ cnames) :
    (faults.submitRefs layout copyOf keys memoryObjs bs objDict).result.isSome =
      !faults.submitsRaise layout keys memoryObjs bs cnames := by
  induction bs generalizing objDict cnames with
  | nil => rfl
  | cons b bs ih =>
    have hcontains : objDict.contains b.allocatorBackend.cname =
        cnames.contains b.allocatorBackend.cname := by
      rw [Bool.eq_iff_iff, h, List.contains_iff_mem]
    have hadded := isSome_addRefs layout copyOf faults keys memoryObjs objDict b.allocatorBackend
    rw [submitRefs, submitsRaise, result_bind, ← hcontains]
    cases hresult : (faults.addRefs layout copyOf keys memoryObjs objDict
        b.allocatorBackend).result with
    | none =>
      rw [hresult, isSome_none, eq_comm, Bool.not_eq_false'] at hadded
      rw [hadded]
      rfl
    | some objDict' =>
      rw [hresult, isSome_some, eq_comm, Bool.not_eq_true'] at hadded
      rw [hadded, bind_some, Bool.false_or]
      cases faults.submit b.name with
      | true => rfl
      | false =>
        refine ih fun cname => ?_
        rw [contains_of_addRefs hresult, h, List.mem_cons]

theorem isSome_batchedPutRefs :
    (faults.batchedPutRefs layout copyOf keys memoryObjs location).result.isSome =
      !faults.raises layout keys memoryObjs location := by
  rw [batchedPutRefs, raises]
  cases faults.manager.allocatorBackend with
  | none => rfl
  | some own =>
    have hown : ∀ cname, ((empty : Dict String (List O)).set own.cname
        memoryObjs).contains cname = true ↔ cname ∈ [own.cname] := by
      intro cname
      rw [contains_set_iff, List.mem_singleton]
      exact or_iff_left Bool.false_ne_true
    dsimp only
    rw [result_bind, ← isSome_submitRefs _ hown]
    cases (faults.submitRefs layout copyOf keys memoryObjs
        (faults.manager.selectedBackends location)
        (empty.set own.cname memoryObjs)).result with
    | none => rfl
    | some objDict => rfl

end PutFaults

end Settled

end References

end LMCache
