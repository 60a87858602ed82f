import LMCache.StorageBackend.DiskPuts
import Mathlib.Data.List.TakeWhile

namespace LMCache

open RunningWork List DiskPuts

inductive Serializer where
  | naive
  | kivi
  | cachegen
deriving DecidableEq, Repr

structure RemotePut (K O : Type) where
  key : K
  memoryObj : O
  serializes : Bool
  scheduled : Bool

structure RemoteConfig where
  mlaWorkerIdAs0Mode : Bool
  supportBatchedPut : Bool
  serializer : Serializer

-- each write has its keys and objects; held has the references to objects that the puts have taken
structure RemoteBackend (K O : Type) where
  connected : Bool
  putTasks : List K
  writes : List (List (K × O))
  held : Multiset (K × O)

inductive RemotePutEvent (K O : Type) where
  | initConnection (connected : Bool)
  | submitPutTask (put : RemotePut K O)
  | batchedSubmitPutTask (puts : List (RemotePut K O)) (scheduled : Bool)
  | putDone (write : ℕ)

namespace Serializer

variable {K O : Type}

def taken : Serializer → List (K × O) → Multiset (K × O)
  | .naive, pairs => pairs
  | .kivi, _ => 0
  | .cachegen, _ => 0

def dropped : Serializer → List (K × O) → Multiset (K × O)
  | .naive, pairs => pairs
  | .kivi, pairs => pairs
  | .cachegen, _ => 0

variable {serializer : Serializer} {pairs : List (K × O)}

theorem mem_of_mem_taken {p : K × O} (h : p ∈ serializer.taken pairs) : p ∈ pairs := by
  cases serializer with
  | naive => exact h
  | kivi => exact absurd h (Multiset.notMem_zero p)
  | cachegen => exact absurd h (Multiset.notMem_zero p)

theorem taken_eq_zero_iff :
    serializer.taken pairs = 0 ↔ serializer ≠ .naive ∨ pairs = [] := by
  cases serializer <;> simp [taken]

end Serializer

namespace RemotePut

def pair {K O : Type} (put : RemotePut K O) : K × O := (put.key, put.memoryObj)

end RemotePut

namespace RemoteBackend

variable {K O : Type} [DecidableEq K] [DecidableEq O]

def start : RemoteBackend K O := ⟨false, [], [], 0⟩

def initConnection (st : RemoteBackend K O) (connected : Bool) : RemoteBackend K O :=
  if st.connected then st else { st with connected := connected }

variable (cfg : RemoteConfig) (st : RemoteBackend K O) (put : RemotePut K O)

def submitPutTask : Submission × RemoteBackend K O :=
  if st.connected = false then (.returned, st)
  else if cfg.mlaWorkerIdAs0Mode then (.returned, st)
  else if put.key ∈ st.putTasks then (.returned, st)
  else
    let st := { st with held := st.held + [put.pair], putTasks := put.key :: st.putTasks }
    if put.serializes = false then (.raised, st)
    else
      let st := { st with held := st.held + cfg.serializer.taken [put.pair] }
      let st := { st with held := st.held - [put.pair] }
      if put.scheduled then (.returned, { st with writes := st.writes ++ [[put.pair]] })
      else (.raised, st)

def submitAll (cfg : RemoteConfig) : RemoteBackend K O → List (RemotePut K O) → RemoteBackend K O
  | st, [] => st
  | st, put :: puts =>
      match st.submitPutTask cfg put with
      | (.returned, st) => submitAll cfg st puts
      | (_, st) => st

def batchedSubmitPutTask (puts : List (RemotePut K O)) (scheduled : Bool) : RemoteBackend K O :=
  if st.connected = false then st
  else if cfg.supportBatchedPut then
    if cfg.mlaWorkerIdAs0Mode then st
    else
      let pairs := puts.map RemotePut.pair
      let serialized := (puts.takeWhile RemotePut.serializes).map RemotePut.pair
      let st := { st with held := st.held + pairs }
      let st := { st with held := st.held + cfg.serializer.taken serialized }
      let st := { st with held := st.held - pairs }
      if puts.all RemotePut.serializes && scheduled then { st with writes := st.writes ++ [pairs] }
      else st
  else st.submitAll cfg puts

def putDone (write : ℕ) : RemoteBackend K O :=
  match st.writes[write]? with
  | none => st
  | some pairs =>
      { st with
        held := st.held - cfg.serializer.dropped pairs
        putTasks := st.putTasks.filter fun key => decide (key ∉ pairs.map Prod.fst)
        writes := st.writes.eraseIdx write }

def exec : RemotePutEvent K O → RemoteBackend K O
  | .initConnection connected => st.initConnection connected
  | .submitPutTask put => (st.submitPutTask cfg put).2
  | .batchedSubmitPutTask puts scheduled => st.batchedSubmitPutTask cfg puts scheduled
  | .putDone write => st.putDone cfg write

def runningOf (pairs : List (K × O)) : RunningWork K O where
  keys := pairs.map Prod.fst
  refs := cfg.serializer.taken pairs
  owned _ hp := mem_map_of_mem (Serializer.mem_of_mem_taken hp)

def running : List (RunningWork K O) :=
  st.writes.map (runningOf cfg)

def Clear : Prop :=
  NoneStuck st.putTasks st.held (st.running cfg)

def Settles : Prop :=
  Balanced st.putTasks st.held (st.running cfg)

def Skips : Prop :=
  st.connected = false ∨ cfg.mlaWorkerIdAs0Mode = true ∨ put.key ∈ st.putTasks

def Enters : Prop :=
  st.Skips cfg put ∨ put.serializes = true ∧
    (put.scheduled = true ∨ cfg.serializer ≠ .naive ∧ RunsFor (st.running cfg) put.key)

def AllEnter (cfg : RemoteConfig) : RemoteBackend K O → List (RemotePut K O) → Prop
  | _, [] => True
  | st, put :: puts => st.Enters cfg put ∧ (st.Skips cfg put ∨ put.scheduled = true →
      AllEnter cfg (st.submitPutTask cfg put).2 puts)

def BatchEnters (puts : List (RemotePut K O)) (scheduled : Bool) : Prop :=
  puts.all RemotePut.serializes = true ∧ scheduled = true ∨
    cfg.serializer ≠ .naive ∨ puts.takeWhile RemotePut.serializes = []

def GoesThrough : RemotePutEvent K O → Prop
  | .submitPutTask put => st.Enters cfg put
  | .batchedSubmitPutTask puts scheduled => st.connected = true →
      if cfg.supportBatchedPut then cfg.mlaWorkerIdAs0Mode = false → BatchEnters cfg puts scheduled
      else st.AllEnter cfg puts
  | _ => True

variable {cfg : RemoteConfig} {st : RemoteBackend K O} {put : RemotePut K O}

theorem held_restored (held taken : Multiset (K × O)) (pairs : List (K × O)) :
    held + pairs + taken - pairs = held + taken := by
  rw [add_right_comm, Multiset.add_sub_cancel_right]

theorem submitPutTask_of_skips (h : st.Skips cfg put) :
    st.submitPutTask cfg put = (.returned, st) := by
  rw [submitPutTask]
  split_ifs with hnone hmla hrecorded
  all_goals first | rfl | exact absurd h (by simp [Skips, *])

theorem submitPutTask_of_not_skips (h : ¬ st.Skips cfg put) :
    st.submitPutTask cfg put =
      if put.serializes = false then
        (.raised, { st with
          held := st.held + [put.pair]
          putTasks := put.key :: st.putTasks })
      else
        (if put.scheduled then .returned else .raised,
          { st with
            held := st.held + cfg.serializer.taken [put.pair]
            putTasks := put.key :: st.putTasks
            writes := st.writes ++ if put.scheduled then [[put.pair]] else [] }) := by
  rw [Skips, not_or, not_or] at h
  obtain ⟨hconnected, hmla, hnew⟩ := h
  rw [submitPutTask, if_neg hconnected, if_neg hmla, if_neg hnew]
  dsimp only
  rw [held_restored]
  cases put.serializes <;> cases put.scheduled <;> simp

omit [DecidableEq K] [DecidableEq O] in
theorem held_add_iff (h : st.Settles cfg) (taken : Multiset (K × O)) :
    st.held + taken = refsOf (st.running cfg) ↔ taken = 0 := by
  rw [← h.held]
  exact add_eq_left

theorem Settles.step_submit_iff (h : st.Settles cfg) :
    (st.submitPutTask cfg put).2.Settles cfg ↔ st.Enters cfg put := by
  rw [Enters]
  by_cases hskips : st.Skips cfg put
  · rw [submitPutTask_of_skips hskips]
    exact iff_of_true h (.inl hskips)
  rw [submitPutTask_of_not_skips hskips, or_iff_right hskips]
  by_cases hserializes : put.serializes = false
  · rw [if_pos hserializes]
    refine iff_of_false (fun hsettles => ?_) (by simp [hserializes])
    exact absurd ((held_add_iff h _).mp hsettles.held) (by simp)
  rw [if_neg hserializes, Bool.not_eq_false] at *
  rw [and_iff_right hserializes]
  cases hscheduled : put.scheduled with
  | true =>
    refine iff_of_true ?_ (.inl rfl)
    have hbegin : Balanced (put.key :: st.putTasks) _ _ :=
      h.begin (runningOf cfg [put.pair]) fun key hkey =>
        (mem_cons.mp hkey).symm.imp_right fun heq => mem_singleton.mpr heq
    rw [Settles, running]
    dsimp only
    rw [if_pos rfl, map_append]
    exact hbegin
  | false =>
    rw [Settles, running]
    dsimp only
    rw [if_neg Bool.false_ne_true, append_nil, or_iff_right Bool.false_ne_true]
    constructor
    · intro hsettles
      have hzero := (held_add_iff h _).mp hsettles.held
      exact ⟨(Serializer.taken_eq_zero_iff.mp hzero).resolve_right (cons_ne_nil _ _),
        hsettles.recorded _ mem_cons_self⟩
    · rintro ⟨hserializer, hruns⟩
      have hzero := (Serializer.taken_eq_zero_iff).mpr (Or.inl hserializer : _ ∨ [put.pair] = [])
      refine ⟨fun key hkey => ?_, (held_add_iff h _).mpr hzero⟩
      rcases mem_cons.mp hkey with rfl | hold
      · exact hruns
      · exact h.recorded key hold

theorem returned_iff (cfg : RemoteConfig) (st : RemoteBackend K O) (put : RemotePut K O) :
    (st.submitPutTask cfg put).1 = .returned ↔
      st.Skips cfg put ∨ put.serializes = true ∧ put.scheduled = true := by
  by_cases hskips : st.Skips cfg put
  · rw [submitPutTask_of_skips hskips]
    exact iff_of_true rfl (.inl hskips)
  · rw [submitPutTask_of_not_skips hskips, or_iff_right hskips]
    cases put.serializes <;> cases put.scheduled <;> simp

theorem submitAll_cons (cfg : RemoteConfig) (st : RemoteBackend K O) (put : RemotePut K O)
    (puts : List (RemotePut K O)) : st.submitAll cfg (put :: puts) =
      if (st.submitPutTask cfg put).1 = .returned then
        (st.submitPutTask cfg put).2.submitAll cfg puts
      else (st.submitPutTask cfg put).2 := by
  rw [submitAll]
  rcases st.submitPutTask cfg put with ⟨_ | _ | _, st'⟩ <;> rfl

variable {puts : List (RemotePut K O)}

theorem Settles.step_all_iff (h : st.Settles cfg) :
    (st.submitAll cfg puts).Settles cfg ↔ st.AllEnter cfg puts := by
  induction puts generalizing st with
  | nil => exact iff_of_true h trivial
  | cons put puts ih =>
    rw [submitAll_cons, AllEnter, ← h.step_submit_iff]
    split_ifs with hreturned
    · have hends := (returned_iff cfg st put).mp hreturned
      have henters : st.Enters cfg put := hends.imp_right fun h => ⟨h.1, .inl h.2⟩
      have hnext := h.step_submit_iff.mpr henters
      rw [ih hnext, and_iff_right hnext, forall_prop_of_true (hends.imp_right And.right)]
    · refine (and_iff_left_of_imp fun hnext hgoes => ?_).symm
      rw [returned_iff, not_or] at hreturned
      obtain ⟨hskips, hraised⟩ := hreturned
      have hserializes := ((h.step_submit_iff.mp hnext).resolve_left hskips).1
      exact absurd ⟨hserializes, hgoes.resolve_left hskips⟩ hraised

variable {scheduled : Bool}

theorem Settles.step_pairs_iff (h : st.Settles cfg) (hconnected : st.connected ≠ false)
    (hbatched : cfg.supportBatchedPut = true) (hmla : cfg.mlaWorkerIdAs0Mode ≠ true) :
    (st.batchedSubmitPutTask cfg puts scheduled).Settles cfg ↔ BatchEnters cfg puts scheduled := by
  rw [batchedSubmitPutTask, if_neg hconnected, if_pos hbatched, if_neg hmla, BatchEnters]
  dsimp only
  rw [held_restored]
  by_cases hall : puts.all RemotePut.serializes = true ∧ scheduled = true
  · rw [if_pos (Bool.and_eq_true_iff.mpr hall), takeWhile_eq_self_iff.mpr (all_eq_true.mp hall.1)]
    refine iff_of_true ?_ (.inl hall)
    have hbegin : Balanced st.putTasks _ _ :=
      h.begin (runningOf cfg (puts.map RemotePut.pair)) fun key hkey => .inl hkey
    rw [Settles, running]
    dsimp only
    rw [map_append]
    exact hbegin
  · rw [if_neg fun hand => hall (Bool.and_eq_true_iff.mp hand), or_iff_right hall,
      ← map_eq_nil_iff (f := RemotePut.pair), ← Serializer.taken_eq_zero_iff,
      ← held_add_iff h]
    exact ⟨fun hsettles => hsettles.held, fun hheld => ⟨h.recorded, hheld⟩⟩

theorem Settles.step_batch_iff (h : st.Settles cfg) :
    (st.batchedSubmitPutTask cfg puts scheduled).Settles cfg ↔
      st.GoesThrough cfg (.batchedSubmitPutTask puts scheduled) := by
  rw [GoesThrough]
  by_cases hconnected : st.connected = false
  · rw [batchedSubmitPutTask, if_pos hconnected]
    exact iff_of_true h fun hup => absurd hup (by simp [hconnected])
  rw [forall_prop_of_true (Bool.of_not_eq_false hconnected)]
  by_cases hbatched : cfg.supportBatchedPut = true
  · rw [if_pos hbatched]
    by_cases hmla : cfg.mlaWorkerIdAs0Mode = true
    · rw [batchedSubmitPutTask, if_neg hconnected, if_pos hbatched, if_pos hmla]
      exact iff_of_true h fun hoff => absurd hmla (by simp [hoff])
    · rw [forall_prop_of_true (Bool.of_not_eq_true hmla)]
      exact h.step_pairs_iff hconnected hbatched hmla
  · rw [if_neg hbatched, batchedSubmitPutTask, if_neg hconnected, if_neg hbatched]
    exact h.step_all_iff

omit [DecidableEq K] [DecidableEq O] in
theorem refsOf_kivi (hkivi : cfg.serializer = .kivi) (st : RemoteBackend K O) :
    refsOf (st.running cfg) = 0 := by
  rw [refsOf, running, map_map]
  refine sum_eq_zero fun refs hrefs => ?_
  obtain ⟨pairs, _, rfl⟩ := mem_map.mp hrefs
  simp only [Function.comp_apply, runningOf, hkivi, Serializer.taken]

theorem Settles.held_sub (h : st.Settles cfg) (pairs : List (K × O)) :
    st.held - cfg.serializer.dropped pairs = st.held - cfg.serializer.taken pairs := by
  cases hserializer : cfg.serializer with
  | naive => rfl
  | cachegen => rfl
  | kivi =>
    rw [h.held, refsOf_kivi hserializer, Multiset.zero_sub, Multiset.zero_sub]

theorem Settles.putDone (h : st.Settles cfg) (write : ℕ) : (st.putDone cfg write).Settles cfg := by
  rw [RemoteBackend.putDone]
  cases hwrite : st.writes[write]? with
  | none => exact h
  | some pairs =>
    obtain ⟨hlt, hget⟩ := List.getElem?_eq_some_iff.mp hwrite
    have hperm : st.writes.Perm (pairs :: st.writes.eraseIdx write) := by
      rw [← hget]
      exact (getElem_cons_eraseIdx_perm hlt).symm
    dsimp only
    rw [h.held_sub]
    exact (h.perm (hperm.map (runningOf cfg))).finish fun key hkey => by
      obtain ⟨hmem, hnot⟩ := mem_filter.mp hkey
      exact ⟨hmem, of_decide_eq_true hnot⟩

theorem settles_step_iff (h : st.Settles cfg) (event : RemotePutEvent K O) :
    (st.exec cfg event).Settles cfg ↔ st.GoesThrough cfg event := by
  cases event with
  | initConnection connected =>
    refine iff_of_true ?_ trivial
    rw [exec, initConnection]
    split_ifs
    exacts [h, h]
  | submitPutTask put => exact h.step_submit_iff
  | batchedSubmitPutTask puts scheduled => exact h.step_batch_iff
  | putDone write => exact iff_of_true (h.putDone write) trivial

open Execution

theorem clear_of_goesThrough (cfg : RemoteConfig) (events : List (RemotePutEvent K O))
    (h : Along (exec cfg) (GoesThrough cfg) start events) :
    Along (exec cfg) (fun st event => (exec cfg st event).Clear cfg) start events :=
  along_of_invariant (I := Settles cfg) (fun _ event hst => (settles_step_iff hst event).mpr)
    (fun _ event hst hgoes => ((settles_step_iff hst event).mpr hgoes).noneStuck) balanced_nil h

theorem settles_iff (cfg : RemoteConfig) (events : List (RemotePutEvent K O)) :
    Along (exec cfg) (fun st event => (exec cfg st event).Settles cfg) start events ↔
      Along (exec cfg) (GoesThrough cfg) start events :=
  along_iff_along (Q := fun _ _ => True) (I := Settles cfg)
    (fun _ event h _ => (settles_step_iff h event).mpr) (fun _ event h _ => settles_step_iff h event)
    balanced_nil (along_of_forall (fun _ _ => trivial) _ _)

end RemoteBackend

open Execution in
theorem noneStuck_iff {K Λ X E O : Type} [DecidableEq K] [DecidableEq (KVObject Λ X E)]
    [DecidableEq O] :
    (∀ (cfg : LocalDiskConfig K Λ) (kind : PolicyKind) (events : List (DiskPutEvent K Λ X E)),
      Along (exec cfg) (fun st event => (exec cfg st event).Clear)
          (start kind) events ↔
        Along (exec cfg) (DiskPuts.GoesThrough cfg) (start kind) events) ∧
    ∀ (cfg : RemoteConfig) (events : List (RemotePutEvent K O)),
      (Along (RemoteBackend.exec cfg) (RemoteBackend.GoesThrough cfg) RemoteBackend.start events →
        Along (RemoteBackend.exec cfg) (fun st event => (RemoteBackend.exec cfg st event).Clear cfg)
          RemoteBackend.start events) ∧
      (Along (RemoteBackend.exec cfg) (fun st event => (RemoteBackend.exec cfg st event).Settles cfg)
          RemoteBackend.start events ↔
        Along (RemoteBackend.exec cfg) (RemoteBackend.GoesThrough cfg)
          RemoteBackend.start events) := by
  exact ⟨clear_iff, fun cfg events =>
    ⟨RemoteBackend.clear_of_goesThrough cfg events, RemoteBackend.settles_iff cfg events⟩⟩

def noRoomPut : DiskPut ℕ Unit Unit Unit := ⟨7, ⟨[1], (), [], (), none⟩, 1, true, true⟩

def unserializedPut : RemotePut ℕ ℕ := ⟨7, 0, false, true⟩

def tinyDisk : LocalDiskConfig ℕ Unit := ⟨[], fun _ => [], 0, fun _ => 1⟩

open Execution in
theorem not_noneStuck_failed :
    ¬ Along (exec tinyDisk) (fun st event => (exec tinyDisk st event).Clear)
        (start .lru) [.submitPutTask noRoomPut] ∧
      ¬ Along (RemoteBackend.exec ⟨false, false, .naive⟩)
        (fun st event => (RemoteBackend.exec ⟨false, false, .naive⟩ st event).Clear
          ⟨false, false, .naive⟩)
        RemoteBackend.start [.initConnection true, .submitPutTask unserializedPut] := by
  refine ⟨fun h => ?_, fun h => ?_⟩
  · have hstuck : ((start .lru).submitPutTask tinyDisk noRoomPut).2.Stuck 7 :=
      ⟨by decide, fun _ htask => absurd htask not_mem_nil⟩
    exact hstuck.not_clear h.1
  · have hidle := h.2.1 7 (by rintro ⟨_, hwork, _⟩; exact absurd hwork not_mem_nil)
    exact hidle.1 (by decide)

end LMCache
