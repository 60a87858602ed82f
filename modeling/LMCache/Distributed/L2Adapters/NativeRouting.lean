import LMCache.Distributed.L2Adapters.NativeConnector

namespace LMCache

open List Bitmap PendingOp

-- what a run has asked of the native client, what the client has completed, and what the callers
-- have been told; reported counts the positions at which lookups reported a key, released the
-- unlocks that found the key locked
structure RoutingLedger (K : Type) where
  submitted : Dict ℕ (PendingOp K)
  completed : List ℕ
  results : List TaskResult
  answered : List TaskResult
  lookups : K → ℕ
  reported : K → ℕ
  unlocks : K → ℕ
  released : K → ℕ

namespace PendingOp

variable {K : Type} [DecidableEq K] (op : PendingOp K) (c : NativeCompletion)

def result : TaskResult :=
  match op.opType with
  | .store => .store op.taskId c.ok
  | .lookup => .lookup op.taskId
      (if c.ok then c.resultBools.getD (replicate op.numKeys false)
        else replicate op.numKeys false)
  | .load => .load op.taskId (replicate op.numKeys c.ok)

def reports (key : K) : ℕ :=
  if op.opType = .lookup ∧ c.ok = true then
    ((op.lookupKeys.getD []).zip (c.resultBools.getD [])).count (key, true)
  else 0

def Answers : Prop :=
  op.opType = .lookup → c.ok = true →
    ∀ resultBools, c.resultBools = some resultBools → resultBools.length = op.numKeys

theorem reports_of_ne {op : PendingOp K} (h : op.opType ≠ .lookup) (c : NativeCompletion)
    (key : K) : op.reports c key = 0 :=
  if_neg fun hlookup => h hlookup.1

omit [DecidableEq K] in
@[simp] theorem taskId_result : (op.result c).taskId = op.taskId := by
  rw [result]
  cases op.opType <;> rfl

end PendingOp

namespace RoutingLedger

variable {K : Type} [DecidableEq K]

def empty : RoutingLedger K :=
  ⟨.empty, [], [], [], fun _ => 0, fun _ => 0, fun _ => 0, fun _ => 0⟩

variable (ledger : RoutingLedger K)

def submit (futureId taskId : Option ℕ) (op : ℕ → PendingOp K) : RoutingLedger K :=
  match futureId, taskId with
  | some fid, some taskId => { ledger with submitted := ledger.submitted.set fid (op taskId) }
  | _, _ => ledger

def complete (c : NativeCompletion) : RoutingLedger K :=
  match ledger.submitted.get? c.futureId with
  | none => ledger
  | some op => { ledger with
      completed := ledger.completed ++ [c.futureId]
      results := ledger.results ++ [op.result c]
      lookups := fun key => ledger.lookups key + min 1 (op.reports c key)
      reported := fun key => ledger.reported key + op.reports c key }

def record (s : NativeConnectorL2Adapter K) :
    NativeAdapterEvent K → RoutingLedger K
  | .submitStoreTask keys futureId =>
      ledger.submit futureId (s.submitStoreTask keys futureId).1 fun taskId =>
        ⟨.store, taskId, keys.length, none⟩
  | .submitLookupAndLockTask keys futureId =>
      ledger.submit futureId (s.submitLookupAndLockTask keys futureId).1 fun taskId =>
        ⟨.lookup, taskId, keys.length, some keys⟩
  | .submitLoadTask keys futureId =>
      ledger.submit futureId (s.submitLoadTask keys futureId).1 fun taskId =>
        ⟨.load, taskId, keys.length, none⟩
  | .submitUnlock keys =>
      { ledger with
        unlocks := fun key => ledger.unlocks key + keys.count key
        released := fun key => ledger.released key + min (keys.count key) (s.lockCount key) }
  | .demux completions => completions.foldl complete ledger
  | event => { ledger with answered := ledger.answered ++ s.answers event }

def Delivers (c : NativeCompletion) : Prop :=
  c.futureId ∉ ledger.completed ∧
    ∀ op, ledger.submitted.get? c.futureId = some op → op.Answers c

def NativeClient : NativeAdapterEvent K → Prop
  | .submitStoreTask _ futureId | .submitLookupAndLockTask _ futureId
  | .submitLoadTask _ futureId => ∀ fid, futureId = some fid → ledger.submitted.get? fid = none
  | .demux completions => Execution.Along complete Delivers ledger completions
  | _ => True

end RoutingLedger

namespace NativeConnectorL2Adapter

open Execution

variable {K : Type} [DecidableEq K] {s : NativeConnectorL2Adapter K} {ledger : RoutingLedger K}

theorem vector_setBits {bitmap : Bitmap} {before : List Bool} (bools : List Bool)
    (h : bitmap.vector = before ++ replicate bools.length false) :
    (setBits bitmap bools before.length).vector = before ++ bools := by
  induction bools generalizing bitmap before with
  | nil => exact h
  | cons found rest ih =>
    rw [length_cons, replicate_succ] at h
    have hnext : (if found = true then bitmap.set before.length else bitmap).vector =
        (before ++ [found]) ++ replicate rest.length false := by
      cases found
      · simpa using h
      · rw [if_pos rfl, vector_set, h]
        simp
    have hrest := ih hnext
    rw [length_append, length_singleton, append_assoc] at hrest
    exact hrest

theorem vector_loadBitmap (n : ℕ) : ((range n).foldl set (ofSize n)).vector = replicate n true := by
  refine (vector_eq_iff ?_).mpr fun i => ?_
  · rw [size_foldl_set, size_ofSize, length_replicate]
  · rw [Bool.eq_iff_iff, test_foldl_set, test_ofSize]
    by_cases hi : i < n
    · simp [hi]
    · simp [hi]

section Locks

variable (lockedKeys : Dict K ℕ)

theorem count_lockKey (key key' : K) :
    count (lockKey lockedKeys key) key' = count lockedKeys key' + if key = key' then 1 else 0 := by
  rw [count, lockKey, Dict.get?_set]
  split_ifs with heq
  · rw [← heq]
    rfl
  · rfl

variable (keys : List K)

theorem count_foldl_lockKey (key : K) :
    count (keys.foldl lockKey lockedKeys) key = count lockedKeys key + keys.count key := by
  induction keys generalizing lockedKeys with
  | nil => rfl
  | cons k keys ih =>
    rw [foldl_cons, ih, count_lockKey, count_cons]
    by_cases heq : k = key
    · simp [heq]
      omega
    · simp [heq]

theorem count_unlockKey (key key' : K) :
    count (unlockKey lockedKeys key) key' = count lockedKeys key' - if key = key' then 1 else 0 := by
  rw [count, count, unlockKey]
  cases hget : lockedKeys.get? key with
  | none =>
    split_ifs with heq
    · rw [← heq, hget]
      rfl
    · rfl
  | some n =>
    dsimp only
    split_ifs with hone heq heq
    · rw [Dict.get?_erase, if_pos heq, ← heq, hget, Option.getD_some]
      exact (Nat.sub_eq_zero_of_le hone).symm
    · rw [Dict.get?_erase, if_neg heq]
      rfl
    · rw [Dict.get?_set, if_pos heq, ← heq, hget]
      rfl
    · rw [Dict.get?_set, if_neg heq]
      rfl

theorem count_foldl_unlockKey (key : K) :
    count (keys.foldl unlockKey lockedKeys) key = count lockedKeys key - keys.count key := by
  induction keys generalizing lockedKeys with
  | nil => rfl
  | cons k keys ih =>
    rw [foldl_cons, ih, count_unlockKey, count_cons]
    by_cases heq : k = key
    · simp [heq]
      omega
    · simp [heq]

theorem recordFound_eq (lookupKeys : List K) (bools : List Bool) (i : ℕ) (bitmap : Bitmap)
    (lockedKeys : Dict K ℕ) (h : i + bools.length ≤ lookupKeys.length) :
    recordFound lookupKeys bools i bitmap lockedKeys = (false, setBits bitmap bools i,
      (((lookupKeys.drop i).zip bools).filterMap fun p => if p.2 then some p.1 else none).foldl
        lockKey lockedKeys) := by
  induction bools generalizing i bitmap lockedKeys with
  | nil => simp [recordFound, setBits]
  | cons found rest ih =>
    rw [length_cons] at h
    have hi : i < lookupKeys.length := by omega
    have hrest := fun bitmap lockedKeys => ih (i + 1) bitmap lockedKeys (by omega)
    rw [recordFound, setBits, drop_eq_getElem_cons hi, zip_cons_cons]
    cases found
    · rw [if_neg Bool.false_ne_true, hrest]
      simp
    · rw [if_pos rfl, getElem?_eq_getElem hi]
      dsimp only
      rw [hrest]
      simp

theorem count_reported (bools : List Bool) (key : K) :
    ((keys.zip bools).filterMap fun p => if p.2 then some p.1 else none).count key =
      (keys.zip bools).count (key, true) := by
  induction keys.zip bools with
  | nil => rfl
  | cons p ps ih =>
    obtain ⟨k, found⟩ := p
    cases found
    · simpa [count_cons] using ih
    · simp [count_cons, ih]

end Locks

structure Routes (s s' : NativeConnectorL2Adapter K) (op : PendingOp K) (c : NativeCompletion) :
    Prop where
  demuxing : s'.demuxing = s.demuxing
  nextTaskId : s'.nextTaskId = s.nextTaskId
  pendingOps : s'.pendingOps = s.pendingOps.erase c.futureId
  available : s'.available.Perm (s.available ++ [op.result c])
  locks : ∀ key, s'.lockCount key = s.lockCount key + op.reports c key

section Available

variable {taskId : ℕ}

theorem get?_of_notMem {V : Type} {d : Dict ℕ V} {f : ℕ × V → TaskResult}
    (hf : ∀ p, (f p).taskId = p.1) (h : taskId ∉ (d.items.map f).map TaskResult.taskId) :
    d.get? taskId = none := by
  rw [map_map] at h
  have hkeys : d.items.map (TaskResult.taskId ∘ f) = d.keys := map_congr_left fun p _ => hf p
  rw [hkeys] at h
  exact (Dict.get?_eq_none_iff d taskId).mpr h

omit [DecidableEq K] in
theorem unrecorded (h : taskId ∉ s.available.map TaskResult.taskId) :
    s.completedStores.get? taskId = none ∧ s.completedLookups.get? taskId = none ∧
      s.completedLoads.get? taskId = none := by
  simp only [available, map_append, mem_append, not_or] at h
  obtain ⟨⟨hstores, hlookups⟩, hloads⟩ := h
  exact ⟨get?_of_notMem (fun _ => rfl) hstores, get?_of_notMem (fun _ => rfl) hlookups,
    get?_of_notMem (fun _ => rfl) hloads⟩

omit [DecidableEq K] in
theorem available_store (h : s.completedStores.get? taskId = none) (ok : Bool) :
    ({ s with completedStores := s.completedStores.set taskId ok } :
      NativeConnectorL2Adapter K).available.Perm (s.available ++ [.store taskId ok]) := by
  simp only [available, Dict.items_set_of_none h, map_append, map_cons, map_nil, append_assoc]
  exact (perm_append_comm.append_left _).trans (by simp)

omit [DecidableEq K] in
theorem available_lookup (h : s.completedLookups.get? taskId = none) (bitmap : Bitmap) :
    ({ s with completedLookups := s.completedLookups.set taskId bitmap } :
      NativeConnectorL2Adapter K).available.Perm
        (s.available ++ [.lookup taskId bitmap.vector]) := by
  simp only [available, Dict.items_set_of_none h, map_append, map_cons, map_nil, append_assoc]
  exact (perm_append_comm.append_left _).append_left _

omit [DecidableEq K] in
theorem available_load (h : s.completedLoads.get? taskId = none) (bitmap : Bitmap) :
    ({ s with completedLoads := s.completedLoads.set taskId bitmap } :
      NativeConnectorL2Adapter K).available.Perm (s.available ++ [.load taskId bitmap.vector]) := by
  simp only [available, Dict.items_set_of_none h, map_append, map_cons, map_nil, append_assoc]
  exact .refl _

end Available

theorem routes_store {op : PendingOp K} {c : NativeCompletion} (hop : op.opType = .store)
    (hpending : s.pendingOps.get? c.futureId = some op)
    (hnew : op.taskId ∉ s.available.map TaskResult.taskId) :
    (s.demuxOne c).1 = false ∧ Routes s (s.demuxOne c).2 op c := by
  rw [demuxOne, hpending]
  simp only [hop]
  refine ⟨trivial, rfl, rfl, rfl, ?_, fun key => ?_⟩
  · rw [result, hop]
    exact available_store (unrecorded hnew).1 c.ok
  · rw [reports_of_ne (by rw [hop]; exact L2OpType.noConfusion)]
    rfl

theorem routes_load {op : PendingOp K} {c : NativeCompletion} (hop : op.opType = .load)
    (hpending : s.pendingOps.get? c.futureId = some op)
    (hnew : op.taskId ∉ s.available.map TaskResult.taskId) :
    (s.demuxOne c).1 = false ∧ Routes s (s.demuxOne c).2 op c := by
  rw [demuxOne, hpending]
  simp only [hop]
  refine ⟨trivial, rfl, rfl, rfl, ?_, fun key => ?_⟩
  · have hresult : op.result c = .load op.taskId
        (if c.ok then (range op.numKeys).foldl set (ofSize op.numKeys)
          else ofSize op.numKeys).vector := by
      simp only [result, hop]
      cases c.ok
      · rw [if_neg Bool.false_ne_true, vector_ofSize]
      · rw [if_pos rfl, vector_loadBitmap]
    rw [hresult]
    exact available_load (unrecorded hnew).2.2 _
  · rw [reports_of_ne (by rw [hop]; exact L2OpType.noConfusion)]
    rfl

theorem routes_lookup {op : PendingOp K} {c : NativeCompletion} {keys : List K}
    (hop : op.opType = .lookup) (hkeys : op.lookupKeys = some keys)
    (hlength : keys.length = op.numKeys) (hanswers : op.Answers c)
    (hpending : s.pendingOps.get? c.futureId = some op)
    (hnew : op.taskId ∉ s.available.map TaskResult.taskId) :
    (s.demuxOne c).1 = false ∧ Routes s (s.demuxOne c).2 op c := by
  have hnone : op.result c = .lookup op.taskId (ofSize op.numKeys).vector →
      (∀ key, op.reports c key = 0) →
      Routes s { s with
        pendingOps := s.pendingOps.erase c.futureId
        completedLookups := s.completedLookups.set op.taskId (ofSize op.numKeys) } op c := by
    intro hresult hreports
    refine ⟨rfl, rfl, rfl, ?_, fun key => ?_⟩
    · rw [hresult]
      exact available_lookup (unrecorded hnew).2.1 _
    · rw [hreports]
      rfl
  rw [demuxOne, hpending]
  simp only [hop, routeLookup]
  cases hok : c.ok with
  | false =>
    refine ⟨rfl, hnone ?_ fun key => ?_⟩
    · rw [result, hop, hok, vector_ofSize]
      rfl
    · simp [reports, hok]
  | true =>
    cases hbools : c.resultBools with
    | none =>
      refine ⟨rfl, hnone ?_ fun key => ?_⟩
      · rw [result, hop, hok, hbools, vector_ofSize]
        rfl
      · simp [reports, hbools]
    | some bools =>
      have hbits := hanswers hop hok bools hbools
      have hrecord := recordFound_eq keys bools 0 (ofSize op.numKeys) s.lockedKeys
        (by omega)
      simp only [hkeys, hrecord, Bool.false_eq_true, if_false]
      refine ⟨trivial, rfl, rfl, rfl, ?_, fun key => ?_⟩
      · have hempty : (ofSize op.numKeys).vector =
            [] ++ replicate bools.length false := by
          rw [vector_ofSize, hbits]
          rfl
        have hvector : (setBits (ofSize op.numKeys) bools 0).vector = bools :=
          vector_setBits bools hempty
        have hresult : op.result c = .lookup op.taskId
            (setBits (ofSize op.numKeys) bools 0).vector := by
          simp only [result, hop, hok, hbools, if_true, Option.getD_some, hvector]
        rw [hresult]
        exact available_lookup (unrecorded hnew).2.1 _
      · rw [lockCount, count_foldl_lockKey, drop_zero, count_reported, reports,
          if_pos ⟨hop, hok⟩, hkeys, hbools]
        rfl

structure Tracked (s : NativeConnectorL2Adapter K) (ledger : RoutingLedger K) : Prop where
  demuxing : s.demuxing = true
  pending : ∀ fid, s.pendingOps.get? fid =
    if fid ∈ ledger.completed then none else ledger.submitted.get? fid
  fresh : ∀ fid op, ledger.submitted.get? fid = some op → op.taskId < s.nextTaskId
  distinct : ∀ fid fid' op op', ledger.submitted.get? fid = some op →
    ledger.submitted.get? fid' = some op' → op.taskId = op'.taskId → fid = fid'
  keyed : ∀ fid op, ledger.submitted.get? fid = some op → op.opType = .lookup →
    ∃ keys, op.lookupKeys = some keys ∧ keys.length = op.numKeys
  owned : ledger.completed.map (fun fid => (ledger.submitted.get? fid).map taskId) =
    ledger.results.map fun result => some result.taskId
  nodup : ledger.completed.Nodup
  available : (ledger.answered ++ s.available).Perm ledger.results
  locks : ∀ key, s.lockCount key + ledger.released key = ledger.reported key
  lookups : ∀ key, ledger.lookups key ≤ ledger.reported key
  unlocks : ∀ key, ledger.released key ≤ ledger.unlocks key

theorem tracked_create : Tracked (create : NativeConnectorL2Adapter K) .empty where
  demuxing := rfl
  pending _ := rfl
  fresh _ _ h := nomatch h
  distinct _ _ _ _ h := nomatch h
  keyed _ _ h := nomatch h
  owned := rfl
  nodup := .nil
  available := .refl _
  locks _ := rfl
  lookups _ := Nat.le_refl 0
  unlocks _ := Nat.le_refl 0

section Tracked

theorem Tracked.owner (h : Tracked s ledger) {fid : ℕ} (hfid : fid ∈ ledger.completed) :
    ∃ op, ledger.submitted.get? fid = some op := by
  have hmem := mem_map_of_mem (f := fun fid => (ledger.submitted.get? fid).map
    taskId) hfid
  rw [h.owned] at hmem
  obtain ⟨_, _, hsome⟩ := mem_map.mp hmem
  cases hop : ledger.submitted.get? fid with
  | none => simp [hop] at hsome
  | some op => exact ⟨op, rfl⟩

theorem Tracked.unanswered (h : Tracked s ledger) {fid : ℕ} {op : PendingOp K}
    (hop : ledger.submitted.get? fid = some op) (hfid : fid ∉ ledger.completed) :
    op.taskId ∉ ledger.results.map TaskResult.taskId := by
  intro hmem
  have hsome : some op.taskId ∈ ledger.results.map fun result => some result.taskId := by
    obtain ⟨result, hresult, heq⟩ := mem_map.mp hmem
    exact mem_map.mpr ⟨result, hresult, congrArg some heq⟩
  rw [← h.owned] at hsome
  obtain ⟨fid', hfid', heq⟩ := mem_map.mp hsome
  obtain ⟨op', hop', htask⟩ := Option.map_eq_some_iff.mp heq
  exact hfid (h.distinct fid fid' op op' hop hop' htask.symm ▸ hfid')

theorem Tracked.nodup_results (h : Tracked s ledger) :
    (ledger.results.map TaskResult.taskId).Nodup := by
  have hnodup : (ledger.results.map fun result => some result.taskId).Nodup := by
    rw [← h.owned]
    refine h.nodup.map_on fun fid hfid fid' hfid' heq => ?_
    obtain ⟨op, hop⟩ := h.owner hfid
    obtain ⟨op', hop'⟩ := h.owner hfid'
    rw [hop, hop'] at heq
    exact h.distinct fid fid' op op' hop hop' (Option.some.inj heq)
  have hmap : ledger.results.map (fun result => some result.taskId) =
      (ledger.results.map TaskResult.taskId).map some := by
    rw [map_map]
    rfl
  rw [hmap] at hnodup
  exact hnodup.of_map some

theorem Tracked.register (h : Tracked s ledger) (opType : L2OpType) (numKeys : ℕ)
    (lookupKeys : Option (List K)) (futureId : Option ℕ)
    (hkeyed : opType = .lookup → ∃ keys, lookupKeys = some keys ∧ keys.length = numKeys)
    (hunused : ∀ fid, futureId = some fid → ledger.submitted.get? fid = none) :
    Tracked (s.register opType numKeys lookupKeys futureId).2
      (ledger.submit futureId (s.register opType numKeys lookupKeys futureId).1 fun taskId =>
        ⟨opType, taskId, numKeys, lookupKeys⟩) := by
  cases futureId with
  | none =>
    exact { h with fresh := fun fid op hop => Nat.lt_succ_of_lt (h.fresh fid op hop) }
  | some fid =>
    have hnone := hunused fid rfl
    have hcompleted : fid ∉ ledger.completed := fun hmem => by
      obtain ⟨op, hop⟩ := h.owner hmem
      rw [hnone] at hop
      cases hop
    have hother : ∀ fid' op', ledger.submitted.get? fid' = some op' → op'.taskId ≠ s.nextTaskId :=
      fun fid' op' hop' => (h.fresh fid' op' hop').ne
    change Tracked _ { ledger with
      submitted := ledger.submitted.set fid ⟨opType, s.nextTaskId, numKeys, lookupKeys⟩ }
    refine { h with
      pending := fun fid' => ?_, fresh := ?_, distinct := ?_, keyed := ?_, owned := ?_ }
    · simp only [NativeConnectorL2Adapter.register, Dict.get?_set, h.pending]
      by_cases heq : fid = fid'
      · rw [if_pos heq, if_pos heq, if_neg (heq ▸ hcompleted)]
      · rw [if_neg heq, if_neg heq]
    · exact Dict.forall_set (P := fun _ (op : PendingOp K) => op.taskId < s.nextTaskId + 1)
        (fun fid' op' hop' => Nat.lt_succ_of_lt (h.fresh fid' op' hop')) s.nextTaskId.lt_succ_self
    · intro fid₁ fid₂ op₁ op₂ hop₁ hop₂ htask
      simp only [Dict.get?_set] at hop₁ hop₂
      split_ifs at hop₁ hop₂ with h₁ h₂ h₂
      · exact h₁.symm.trans h₂
      · cases hop₁
        exact absurd htask.symm (hother fid₂ op₂ hop₂)
      · cases hop₂
        exact absurd htask (hother fid₁ op₁ hop₁)
      · exact h.distinct fid₁ fid₂ op₁ op₂ hop₁ hop₂ htask
    · exact Dict.forall_set (P := fun _ (op : PendingOp K) => op.opType = .lookup →
        ∃ keys, op.lookupKeys = some keys ∧ keys.length = op.numKeys) h.keyed hkeyed
    · refine Eq.trans (map_congr_left fun fid' hfid' => ?_) h.owned
      have hne : fid ≠ fid' := fun heq => hcompleted (heq ▸ hfid')
      rw [Dict.get?_set_ne _ _ hne]

theorem Tracked.complete (h : Tracked s ledger) {c : NativeCompletion}
    (hdelivers : ledger.Delivers c) :
    (s.demuxOne c).1 = false ∧ Tracked (s.demuxOne c).2 (ledger.complete c) := by
  obtain ⟨hfid, hanswers⟩ := hdelivers
  have hpending := h.pending c.futureId
  rw [if_neg hfid] at hpending
  cases hop : ledger.submitted.get? c.futureId with
  | none =>
    rw [hop] at hpending
    rw [demuxOne, hpending, RoutingLedger.complete, hop]
    exact ⟨rfl, h⟩
  | some op =>
    rw [hop] at hpending
    have hnew : op.taskId ∉ s.available.map TaskResult.taskId := fun hmem => by
      refine h.unanswered hop hfid ?_
      obtain ⟨result, hresult, heq⟩ := mem_map.mp hmem
      exact mem_map.mpr ⟨result, h.available.subset (mem_append_right _ hresult), heq⟩
    have hroutes : (s.demuxOne c).1 = false ∧ Routes s (s.demuxOne c).2 op c := by
      cases htype : op.opType with
      | store => exact routes_store htype hpending hnew
      | load => exact routes_load htype hpending hnew
      | lookup =>
        obtain ⟨keys, hkeys, hlength⟩ := h.keyed _ op hop htype
        exact routes_lookup htype hkeys hlength (hanswers op hop) hpending hnew
    obtain ⟨hraises, hroute⟩ := hroutes
    rw [RoutingLedger.complete, hop]
    refine ⟨hraises, { h with
      demuxing := hroute.demuxing.trans h.demuxing, pending := fun fid => ?_
      fresh := fun fid op' hop' => ?_, owned := ?_, nodup := ?_
      available := ?_, locks := fun key => ?_, lookups := fun key => ?_ }⟩
    · rw [hroute.pendingOps, Dict.get?_erase, h.pending]
      by_cases heq : c.futureId = fid
      · simp [heq]
      · have hne : ¬ fid = c.futureId := fun hback => heq hback.symm
        simp [heq, hne]
    · rw [hroute.nextTaskId]
      exact h.fresh fid op' hop'
    · simp only [map_append, h.owned, map_cons, map_nil, hop, Option.map_some, taskId_result]
    · exact h.nodup.append (nodup_singleton _) (disjoint_singleton.mpr hfid)
    · refine (hroute.available.append_left _).trans ?_
      rw [← append_assoc]
      exact h.available.append_right _
    · have hlocks := h.locks key
      rw [hroute.locks]
      dsimp only
      omega
    · exact Nat.add_le_add (h.lookups key) (Nat.min_le_right _ _)

theorem Tracked.demuxAll (h : Tracked s ledger) {completions : List NativeCompletion}
    (hdelivers : Along RoutingLedger.complete RoutingLedger.Delivers ledger completions) :
    Tracked (demuxAll completions s) (completions.foldl RoutingLedger.complete ledger) := by
  induction completions generalizing s ledger with
  | nil => exact h
  | cons c completions ih =>
    obtain ⟨hraises, hnext⟩ := h.complete hdelivers.1
    simp only [NativeConnectorL2Adapter.demuxAll, hraises, Bool.false_eq_true, if_false]
    exact ih hnext hdelivers.2

theorem Tracked.answer (h : Tracked s ledger) {s' : NativeConnectorL2Adapter K}
    {answers : List TaskResult} (hdemuxing : s'.demuxing = s.demuxing)
    (hpending : s'.pendingOps = s.pendingOps) (hnext : s'.nextTaskId = s.nextTaskId)
    (hlocked : s'.lockedKeys = s.lockedKeys)
    (havailable : (answers ++ s'.available).Perm s.available) :
    Tracked s' { ledger with answered := ledger.answered ++ answers } where
  demuxing := hdemuxing.trans h.demuxing
  pending := hpending ▸ h.pending
  fresh := hnext ▸ h.fresh
  distinct := h.distinct
  keyed := h.keyed
  owned := h.owned
  nodup := h.nodup
  available := by
    rw [append_assoc]
    exact (havailable.append_left _).trans h.available
  locks key := by
    rw [lockCount, hlocked]
    exact h.locks key
  lookups := h.lookups
  unlocks := h.unlocks

theorem perm_erase_items {V : Type} (d : Dict ℕ V) (taskId : ℕ) (f : ℕ × V → TaskResult) :
    (((d.get? taskId).map fun v => f (taskId, v)).toList ++ (d.erase taskId).items.map f).Perm
      (d.items.map f) := by
  have hperm := (d.items_erase_perm taskId).map f
  rw [map_append] at hperm
  refine List.Perm.trans (List.Perm.append_right _ (.of_eq ?_)) hperm
  cases d.get? taskId <;> rfl

theorem Tracked.exec (h : Tracked s ledger) {event : NativeAdapterEvent K}
    (hclient : ledger.NativeClient event) : Tracked (s.exec event) (ledger.record s event) := by
  cases event with
  | submitStoreTask keys futureId =>
    exact h.register .store keys.length none futureId (fun hlookup => nomatch hlookup) hclient
  | submitLookupAndLockTask keys futureId =>
    exact h.register .lookup keys.length (some keys) futureId (fun _ => ⟨keys, rfl, rfl⟩) hclient
  | submitLoadTask keys futureId =>
    exact h.register .load keys.length none futureId (fun hlookup => nomatch hlookup) hclient
  | submitUnlock keys =>
    refine { h with locks := fun key => ?_, unlocks := fun key => ?_ }
    · have hlocks := h.locks key
      have hcount := count_foldl_unlockKey s.lockedKeys keys key
      simp only [NativeConnectorL2Adapter.exec, submitUnlock, RoutingLedger.record, lockCount]
        at hlocks ⊢
      rw [hcount]
      omega
    · exact Nat.add_le_add (h.unlocks key) (Nat.min_le_left _ _)
  | popCompletedStoreTasks =>
    refine h.answer rfl rfl rfl rfl ?_
    simp only [NativeConnectorL2Adapter.exec, popCompletedStoreTasks, answers,
      NativeConnectorL2Adapter.available, append_assoc]
    exact .refl _
  | queryLookupAndLockResult taskId =>
    refine h.answer rfl rfl rfl rfl ?_
    have hperm := perm_erase_items s.completedLookups taskId fun p => .lookup p.1 p.2.vector
    simp only [NativeConnectorL2Adapter.exec, queryLookupAndLockResult, answers,
      NativeConnectorL2Adapter.available, append_assoc]
    refine (perm_append_comm_assoc _ _ _).trans (List.Perm.append_left _ ?_)
    rw [← append_assoc]
    exact hperm.append_right _
  | queryLoadResult taskId =>
    refine h.answer rfl rfl rfl rfl ?_
    have hperm := perm_erase_items s.completedLoads taskId fun p => .load p.1 p.2.vector
    simp only [NativeConnectorL2Adapter.exec, queryLoadResult, answers,
      NativeConnectorL2Adapter.available, append_assoc]
    refine (perm_append_comm_assoc _ _ _).trans (List.Perm.append_left _ ?_)
    exact (perm_append_comm_assoc _ _ _).trans (hperm.append_left _)
  | demux completions =>
    rw [NativeConnectorL2Adapter.exec, if_pos h.demuxing]
    exact h.demuxAll hclient

end Tracked

def execRecorded (p : NativeConnectorL2Adapter K × RoutingLedger K) (event : NativeAdapterEvent K) :
    NativeConnectorL2Adapter K × RoutingLedger K :=
  (p.1.exec event, p.2.record p.1 event)

def run (events : List (NativeAdapterEvent K)) : NativeConnectorL2Adapter K × RoutingLedger K :=
  final execRecorded (create, .empty) events

structure Routed (s : NativeConnectorL2Adapter K) (ledger : RoutingLedger K) : Prop where
  demuxing : s.demuxing = true
  results : (ledger.answered ++ s.available).Perm ledger.results
  once : (ledger.results.map TaskResult.taskId).Nodup
  locks : ∀ key, s.lockCount key + ledger.released key = ledger.reported key
  held : ∀ key, ledger.lookups key - ledger.unlocks key ≤ s.lockCount key

theorem routed_run (events : List (NativeAdapterEvent K))
    (hclient : Along execRecorded (fun p event => p.2.NativeClient event) (create, .empty) events) :
    Routed (run events).1 (run events).2 := by
  have h : Tracked (run events).1 (run events).2 :=
    invariant_final (I := fun p : NativeConnectorL2Adapter K × RoutingLedger K => Tracked p.1 p.2)
      (fun _ _ htracked hevent => htracked.exec hevent) tracked_create hclient
  refine ⟨h.demuxing, h.available, h.nodup_results, h.locks, fun key => ?_⟩
  have hlocks := h.locks key
  have hlookups := h.lookups key
  have hunlocks := h.unlocks key
  omega

def crossed : List (NativeAdapterEvent ℕ) :=
  [.submitLookupAndLockTask [7, 8, 9] (some 1), .submitStoreTask [5] (some 2),
    .demux [⟨2, true, "", none⟩, ⟨1, true, "", some [true, false, true]⟩],
    .queryLookupAndLockResult 0, .submitUnlock [9], .popCompletedStoreTasks]

theorem routed_crossed : Routed (run crossed).1 (run crossed).2 := by
  refine routed_run crossed ⟨?_, ?_, ⟨⟨by decide, ?_⟩, ⟨by decide, ?_⟩, trivial⟩, trivial, trivial,
    trivial, trivial⟩
  · rintro _ ⟨⟩
    rfl
  · rintro _ ⟨⟩
    rfl
  · rintro _ ⟨⟩ hlookup
    cases hlookup
  · rintro _ ⟨⟩ _ _ _ ⟨⟩
    rfl

structure RoutedAsStated (events : List (NativeAdapterEvent ℕ)) : Prop where
  bits : ∀ completions c op bools, .demux completions ∈ events → c ∈ completions →
    (run events).2.submitted.get? c.futureId = some op → op.opType = .lookup →
      c.resultBools = some bools →
        .lookup op.taskId bools ∈ (run events).2.answered ++ (run events).1.available
  locks : ∀ key,
    (run events).1.lockCount key = (run events).2.lookups key - (run events).2.unlocks key

def unlockedEarly : List (NativeAdapterEvent ℕ) :=
  [.submitUnlock [7], .submitLookupAndLockTask [7] (some 1), .demux [⟨1, true, "", some [true]⟩]]

def repeatedKey : List (NativeAdapterEvent ℕ) :=
  [.submitLookupAndLockTask [7, 7] (some 1), .demux [⟨1, true, "", some [true, true]⟩]]

def failedTile : List (NativeAdapterEvent ℕ) :=
  [.submitLookupAndLockTask [7, 8] (some 1),
    .demux [⟨1, false, "connection reset", some [true, false]⟩]]

theorem not_routedAsStated :
    ¬ RoutedAsStated unlockedEarly ∧ ¬ RoutedAsStated repeatedKey ∧
      ¬ RoutedAsStated failedTile := by
  refine ⟨fun h => absurd (h.locks 7) (by decide), fun h => absurd (h.locks 7) (by decide),
    fun h => ?_⟩
  have hbits := h.bits _ _ ⟨.lookup, 0, 2, some [7, 8]⟩ [true, false]
    (mem_cons_of_mem _ mem_cons_self) mem_cons_self rfl rfl rfl
  exact absurd hbits (by decide)

end NativeConnectorL2Adapter

end LMCache
