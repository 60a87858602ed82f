import LMCache.Foundations.Holdings
import LMCache.StorageBackend.DiskReadJobs

namespace LMCache

open RunningWork DiskState List

structure DiskPut (K Λ X E : Type) where
  key : K
  memoryObj : KVObject Λ X E
  physicalSize : ℕ
  hasTensor : Bool
  scheduled : Bool

structure DiskPuts (K Λ X E : Type) where
  disk : DiskState K Λ X E
  held : Multiset (K × KVObject Λ X E)

inductive Submission where
  | returned
  | raised
  | waiting
deriving DecidableEq

def DiskEvent.OfOthers {K Λ X E : Type} : DiskEvent K Λ X E → Prop
  | .submitPutTask _ _ _ => False
  | .writeFile _ => False
  | .insertKey _ => False
  | .removePutTask _ => False
  | _ => True

inductive DiskPutEvent (K Λ X E : Type) where
  | submitPutTask (put : DiskPut K Λ X E)
  | batchedSubmitPutTask (puts : List (DiskPut K Λ X E))
  | writeFile (key : K)
  | writeFails (key : K) (left : Option (List ℕ))
  | insertKey (key : K)
  | insertFails (key : K)
  | removePutTask (key : K)
  | other (event : { event : DiskEvent K Λ X E // event.OfOthers })

variable {K Λ X E : Type} [DecidableEq K]

namespace DiskPuts

def start (kind : PolicyKind) : DiskPuts K Λ X E := ⟨.start kind, 0⟩

variable (cfg : LocalDiskConfig K Λ) (st : DiskPuts K Λ X E)

def submitPutTask (put : DiskPut K Λ X E) : Submission × DiskPuts K Λ X E :=
  if put.hasTensor = false then (.raised, st)
  else if put.key ∈ st.disk.putTasks then (.returned, st)
  else if st.disk.locked then (.waiting, { st with disk := st.disk.insertPutTask put.key })
  else
    match makeRoom cfg.maxCacheSize put.physicalSize st.disk.dict.items.length
      (st.disk.insertPutTask put.key) with
    | (.full, disk) => (.returned, { st with disk := disk })
    | (.raised, disk) => (.raised, { st with disk := disk })
    | (.room, disk) =>
        let held := st.held + {(put.key, put.memoryObj)}
        if put.scheduled then
          (.returned, ⟨disk.accept put.key put.memoryObj put.physicalSize, held⟩)
        else
          (.raised, ⟨{ disk with
            currentCacheSize := disk.currentCacheSize + put.physicalSize
            policy := disk.policy.updateOnPut put.key }, held⟩)

def batchedSubmitPutTask (cfg : LocalDiskConfig K Λ) : DiskPuts K Λ X E → List (DiskPut K Λ X E) →
    DiskPuts K Λ X E
  | st, [] => st
  | st, put :: puts =>
      match st.submitPutTask cfg put with
      | (.returned, st) => batchedSubmitPutTask cfg st puts
      | (_, st) => st

section Steps

variable [DecidableEq (KVObject Λ X E)]

def writeFile (cfg : LocalDiskConfig K Λ) (st : DiskPuts K Λ X E) (key : K) : DiskPuts K Λ X E :=
  match st.disk.taskOf key .queued with
  | none => st
  | some task => ⟨st.disk.writeFile cfg key, st.held - {(key, task.memoryObj)}⟩

def writeFails (cfg : LocalDiskConfig K Λ) (st : DiskPuts K Λ X E) (key : K)
    (left : Option (List ℕ)) : DiskPuts K Λ X E :=
  match st.disk.taskOf key .queued with
  | none => st
  | some _ => { st with disk := (st.disk.setFile (cfg.keyToPath key) left).dropTask key }

def insertFails (cfg : LocalDiskConfig K Λ) (st : DiskPuts K Λ X E) (key : K) : DiskPuts K Λ X E :=
  match st.disk.taskOf key .written with
  | none => st
  | some _ => { st with disk := (st.disk.insertKey cfg key).dropTask key }

def exec (cfg : LocalDiskConfig K Λ) (st : DiskPuts K Λ X E) :
    DiskPutEvent K Λ X E → DiskPuts K Λ X E
  | .submitPutTask put => (st.submitPutTask cfg put).2
  | .batchedSubmitPutTask puts => st.batchedSubmitPutTask cfg puts
  | .writeFile key => st.writeFile cfg key
  | .writeFails key left => st.writeFails cfg key left
  | .insertKey key => { st with disk := cfg.exec st.disk (.insertKey key) }
  | .insertFails key => if st.disk.locked then st else st.insertFails cfg key
  | .removePutTask key => { st with disk := cfg.exec st.disk (.removePutTask key) }
  | .other event => { st with disk := cfg.exec st.disk event.1 }

end Steps

def runningOf (task : DiskPutTask K Λ X E) : RunningWork K (KVObject Λ X E) where
  keys := [task.key]
  refs := if task.phase = .queued then {(task.key, task.memoryObj)} else 0
  owned := by
    intro p hp
    split_ifs at hp
    · exact mem_singleton.mpr (congrArg Prod.fst (Multiset.mem_singleton.mp hp))
    · exact absurd hp (Multiset.notMem_zero p)

def running : List (RunningWork K (KVObject Λ X E)) :=
  st.disk.tasks.map runningOf

def Clear : Prop := NoneStuck st.disk.putTasks st.held st.running

def Enters (put : DiskPut K Λ X E) : Prop :=
  put.hasTensor = false ∨ put.key ∈ st.disk.putTasks ∨
    st.disk.locked = false ∧ put.scheduled = true ∧
      (makeRoom cfg.maxCacheSize put.physicalSize st.disk.dict.items.length
        (st.disk.insertPutTask put.key)).1 = .room

def AllEnter (cfg : LocalDiskConfig K Λ) : DiskPuts K Λ X E → List (DiskPut K Λ X E) → Prop
  | _, [] => True
  | st, put :: puts => st.Enters cfg put ∧
      (put.hasTensor = true → AllEnter cfg (st.submitPutTask cfg put).2 puts)

def GoesThrough :
    DiskPutEvent K Λ X E → Prop
  | .submitPutTask put => st.Enters cfg put
  | .batchedSubmitPutTask puts => st.AllEnter cfg puts
  | .writeFails key _ => st.disk.taskOf key .queued = none
  | .insertKey key => st.disk.locked = false → ∀ task, st.disk.taskOf key .written = some task →
      st.disk.dict.contains key = true → st.disk.KnownToPolicy key
  | .insertFails key => st.disk.locked = false → st.disk.taskOf key .written = none
  | _ => True

structure InStep (st : DiskPuts K Λ X E) : Prop where
  registered : st.disk.Registered
  nodup : st.disk.putTasks.Nodup
  balanced : Balanced st.disk.putTasks st.held st.running

def Stuck (key : K) : Prop :=
  key ∈ st.disk.putTasks ∧ ∀ task ∈ st.disk.tasks, task.key ≠ key

inductive Submits (cfg : LocalDiskConfig K Λ) (st : DiskPuts K Λ X E) (put : DiskPut K Λ X E) :
    Submission × DiskPuts K Λ X E → Prop
  | refused : put.hasTensor = false → Submits cfg st put (.raised, st)
  | skipped : put.hasTensor = true → put.key ∈ st.disk.putTasks → Submits cfg st put (.returned, st)
  | entered {disk : DiskState K Λ X E} : put.hasTensor = true → put.key ∉ st.disk.putTasks →
      st.Enters cfg put → disk.tasks = st.disk.tasks →
      disk.putTasks = st.disk.putTasks ++ [put.key] → Submits cfg st put (.returned,
        ⟨disk.accept put.key put.memoryObj put.physicalSize, st.held + {(put.key, put.memoryObj)}⟩)
  | stuck {outcome : Submission} {st' : DiskPuts K Λ X E} : put.key ∉ st.disk.putTasks →
      ¬ st.Enters cfg put → st'.disk.tasks = st.disk.tasks →
      st'.disk.putTasks = st.disk.putTasks ++ [put.key] → Submits cfg st put (outcome, st')

variable {cfg : LocalDiskConfig K Λ} {st : DiskPuts K Λ X E} {put : DiskPut K Λ X E} {key : K}

omit [DecidableEq K] in
theorem runsFor_iff (st : DiskPuts K Λ X E) (key : K) :
    RunsFor st.running key ↔ ∃ task ∈ st.disk.tasks, task.key = key := by
  rw [RunsFor, running]
  constructor
  · rintro ⟨work, hwork, hkey⟩
    obtain ⟨task, htask, rfl⟩ := mem_map.mp hwork
    exact ⟨task, htask, (mem_singleton.mp hkey).symm⟩
  · rintro ⟨task, htask, rfl⟩
    exact ⟨runningOf task, mem_map_of_mem htask, mem_singleton.mpr rfl⟩

omit [DecidableEq K] in
theorem Stuck.not_clear (h : st.Stuck key) : ¬ st.Clear := by
  intro hclear
  refine (hclear key fun hruns => ?_).1 h.1
  obtain ⟨task, htask, hkey⟩ := (runsFor_iff st key).mp hruns
  exact h.2 task htask hkey

theorem submits (cfg : LocalDiskConfig K Λ) (st : DiskPuts K Λ X E) (put : DiskPut K Λ X E) :
    Submits cfg st put (st.submitPutTask cfg put) := by
  rw [submitPutTask]
  by_cases htensor : put.hasTensor = false
  · rw [if_pos htensor]
    exact .refused htensor
  rw [if_neg htensor]
  by_cases hrecorded : put.key ∈ st.disk.putTasks
  · rw [if_pos hrecorded]
    exact .skipped (Bool.of_not_eq_false htensor) hrecorded
  rw [if_neg hrecorded]
  have hnot (h : st.disk.locked = false → put.scheduled = true →
      (makeRoom cfg.maxCacheSize put.physicalSize st.disk.dict.items.length
        (st.disk.insertPutTask put.key)).1 ≠ .room) : ¬ st.Enters cfg put := by
    rintro (hnone | hold | ⟨hfree, hscheduled, hroom⟩)
    exacts [htensor hnone, hrecorded hold, h hfree hscheduled hroom]
  by_cases hlocked : st.disk.locked = true
  · rw [if_pos hlocked]
    exact .stuck hrecorded (hnot fun hfree => absurd hlocked (by simp [hfree])) rfl rfl
  rw [if_neg hlocked]
  have hmade := roomMade cfg.maxCacheSize put.physicalSize st.disk.dict.items.length
    (st.disk.insertPutTask put.key) (Nat.le_refl _)
  cases hresult : makeRoom cfg.maxCacheSize put.physicalSize
    st.disk.dict.items.length (st.disk.insertPutTask put.key) with
  | mk result disk =>
    rw [hresult] at hmade hnot
    have htasks := hmade.evicted.tasks
    have hputTasks := hmade.evicted.putTasks
    cases result with
    | full | raised => exact .stuck hrecorded (hnot fun _ _ => by simp) htasks hputTasks
    | room =>
      dsimp only
      split_ifs with hscheduled
      · have henters : st.Enters cfg put :=
          .inr (.inr ⟨Bool.of_not_eq_true hlocked, hscheduled, by rw [hresult]⟩)
        exact .entered (Bool.of_not_eq_false htensor) hrecorded henters htasks hputTasks
      · exact .stuck hrecorded (hnot fun _ h => absurd h hscheduled) htasks hputTasks

theorem Stuck.submitPutTask (h : st.Stuck key) (cfg : LocalDiskConfig K Λ)
    (put : DiskPut K Λ X E) : (st.submitPutTask cfg put).2.Stuck key := by
  have hends := submits cfg st put
  generalize st.submitPutTask cfg put = result at hends ⊢
  cases hends with
  | refused htensor => exact h
  | skipped htensor hrecorded => exact h
  | @entered disk _ hnew _ htasks hputTasks =>
    refine ⟨hputTasks ▸ mem_append_left _ h.1, fun task htask => ?_⟩
    rcases mem_append.mp htask with hold | hlast
    · exact h.2 task (htasks ▸ hold)
    · obtain rfl := mem_singleton.mp hlast
      rintro rfl
      exact hnew h.1
  | stuck hnew hfails htasks hputTasks =>
    exact ⟨hputTasks ▸ mem_append_left _ h.1, htasks ▸ h.2⟩

theorem InStep.stuck_of_not_enters (h : st.InStep) (hfails : ¬ st.Enters cfg put) :
    (st.submitPutTask cfg put).2.Stuck put.key := by
  have hends := submits cfg st put
  generalize st.submitPutTask cfg put = result at hends ⊢
  cases hends with
  | refused htensor => exact absurd (.inl htensor) hfails
  | skipped htensor hrecorded => exact absurd (.inr (.inl hrecorded)) hfails
  | entered _ hnew henters htasks hputTasks => exact absurd henters hfails
  | stuck hnew _ htasks hputTasks =>
    refine ⟨hputTasks ▸ mem_append_right _ mem_cons_self, htasks ▸ fun task htask => ?_⟩
    rintro heq
    exact hnew (heq ▸ h.registered.registered task htask)

theorem InStep.enters (h : st.InStep) (henters : st.Enters cfg put) :
    (st.submitPutTask cfg put).2.InStep := by
  have hends := submits cfg st put
  generalize st.submitPutTask cfg put = result at hends ⊢
  cases hends with
  | refused htensor => exact h
  | skipped htensor hrecorded => exact h
  | stuck hnew hfails htasks hputTasks => exact absurd henters hfails
  | @entered disk _ hnew _ htasks hputTasks =>
    let task : DiskPutTask K Λ X E := ⟨put.key, put.memoryObj, put.physicalSize, .queued⟩
    have htasks' : (disk.accept put.key put.memoryObj put.physicalSize).tasks =
        st.disk.tasks ++ [task] := by rw [accept, htasks]
    have hputTasks' : (disk.accept put.key put.memoryObj put.physicalSize).putTasks =
        st.disk.putTasks ++ [put.key] := hputTasks
    refine ⟨⟨?_, ?_⟩, ?_, ?_⟩
    · rw [htasks', map_append, nodup_append]
      refine ⟨h.registered.nodup, nodup_singleton _, ?_⟩
      rintro _ hold _ hlast rfl
      obtain ⟨other, hother, rfl⟩ := mem_map.mp hold
      have hkey : other.key = put.key := mem_singleton.mp hlast
      exact hnew (hkey ▸ h.registered.registered other hother)
    · rw [htasks', hputTasks']
      intro other hother
      rcases mem_append.mp hother with hold | hlast
      · exact mem_append_left _ (h.registered.registered other hold)
      · obtain rfl := mem_singleton.mp hlast
        exact mem_append_right _ mem_cons_self
    · change (accept disk put.key put.memoryObj put.physicalSize).putTasks.Nodup
      rw [hputTasks']
      exact h.nodup.append (nodup_singleton _) (disjoint_singleton.mpr hnew)
    · have hbegin : Balanced (st.disk.putTasks ++ [put.key]) _ _ :=
        h.balanced.begin (runningOf task) fun key hkey => mem_append.mp hkey
      have hrunning : running ⟨disk.accept put.key put.memoryObj put.physicalSize,
          st.held + {(put.key, put.memoryObj)}⟩ = st.running ++ [runningOf task] := by
        rw [running, htasks', map_append]
        rfl
      rw [hrunning]
      change Balanced (accept disk put.key put.memoryObj put.physicalSize).putTasks _ _
      rw [hputTasks']
      exact hbegin

variable {puts : List (DiskPut K Λ X E)}

theorem InStep.allEnter (h : st.InStep) (henter : st.AllEnter cfg puts) :
    (st.batchedSubmitPutTask cfg puts).InStep := by
  induction puts generalizing st with
  | nil => exact h
  | cons put puts ih =>
    obtain ⟨hput, hrest⟩ := henter
    have hnext := h.enters hput
    have hends := submits cfg st put
    rw [batchedSubmitPutTask]
    generalize st.submitPutTask cfg put = result at hends hnext hrest ⊢
    cases hends with
    | refused htensor => exact hnext
    | skipped htensor _ => exact ih hnext (hrest htensor)
    | entered htensor _ _ _ _ => exact ih hnext (hrest htensor)
    | stuck _ hfails _ _ => exact absurd hput hfails

theorem Stuck.batchedSubmitPutTask (h : st.Stuck key) (cfg : LocalDiskConfig K Λ) :
    (st.batchedSubmitPutTask cfg puts).Stuck key := by
  induction puts generalizing st with
  | nil => exact h
  | cons put puts ih =>
    have hnext := h.submitPutTask cfg put
    rw [DiskPuts.batchedSubmitPutTask]
    split
    · rename_i hresult
      rw [hresult] at hnext
      exact ih hnext
    · rename_i hresult
      rw [hresult] at hnext
      exact hnext

variable (disk : DiskState K Λ X E)

theorem InStep.stuck_of_not_allEnter (h : st.InStep) (hfails : ¬ st.AllEnter cfg puts) :
    ∃ key, (st.batchedSubmitPutTask cfg puts).Stuck key := by
  induction puts generalizing st with
  | nil => exact absurd trivial hfails
  | cons put puts ih =>
    by_cases hput : st.Enters cfg put
    · have hnext := h.enters hput
      have hrest : ¬ (put.hasTensor = true → (st.submitPutTask cfg put).2.AllEnter cfg puts) :=
        fun hrest => hfails ⟨hput, hrest⟩
      have hends := submits cfg st put
      rw [batchedSubmitPutTask]
      generalize st.submitPutTask cfg put = result at hends hnext hrest ⊢
      cases hends with
      | refused htensor => exact absurd (fun h => absurd htensor (by simp [h])) hrest
      | skipped htensor _ => exact ih hnext fun hall => hrest fun _ => hall
      | entered htensor _ _ _ _ => exact ih hnext fun hall => hrest fun _ => hall
      | stuck _ hnot _ _ => exact absurd hput hnot
    · have hstuck := h.stuck_of_not_enters hput
      refine ⟨put.key, ?_⟩
      rw [batchedSubmitPutTask]
      split
      · rename_i hresult
        rw [hresult] at hstuck
        exact hstuck.batchedSubmitPutTask cfg
      · rename_i hresult
        rw [hresult] at hstuck
        exact hstuck

section Worker

variable {task : DiskPutTask K Λ X E} {others : List (DiskPutTask K Λ X E)} {phase : PutPhase}

omit [DecidableEq K] in
theorem runningOf_setPhase {next : PutPhase} (hqueued : task.phase ≠ .queued)
    (hnext : next ≠ .queued) : runningOf { task with phase := next } = runningOf task := by
  simp only [runningOf, if_neg hqueued, if_neg hnext]

omit [DecidableEq K] in
theorem balanced_tasks (h : Balanced st.disk.putTasks st.held st.running)
    (hperm : st.disk.tasks.Perm (task :: others)) :
    Balanced st.disk.putTasks st.held (runningOf task :: others.map runningOf) :=
  h.perm (hperm.map runningOf)

theorem InStep.recorded_of_taskOf (h : st.InStep) (htask : st.disk.taskOf key phase = some task) :
    key ∈ st.disk.putTasks := by
  obtain ⟨hmem, rfl, _⟩ := taskOf_some htask
  exact h.registered.registered task hmem

theorem key_ne_of_mem_dropTask {disk : DiskState K Λ X E} (h : task ∈ (disk.dropTask key).tasks) :
    task.key ≠ key := of_decide_eq_true (mem_filter.mp h).2

theorem InStep.setPhase (h : st.InStep) (htask : st.disk.taskOf key phase = some task)
    (next : PutPhase) {disk : DiskState K Λ X E} {held : Multiset (K × KVObject Λ X E)}
    (htasks : disk.tasks = (st.disk.setPhase key next).tasks)
    (hputTasks : disk.putTasks = st.disk.putTasks)
    (hbalanced : ∀ others, Balanced st.disk.putTasks st.held (runningOf task :: others) →
      Balanced st.disk.putTasks held (runningOf { task with phase := next } :: others)) :
    InStep ⟨disk, held⟩ := by
  have hregistered := h.registered.setPhase key next
  obtain ⟨rfl, _, hsplits⟩ := splits_of_nodup h.registered.nodup htask
  refine ⟨hregistered.congr htasks hputTasks, hputTasks ▸ h.nodup, ?_⟩
  have hnext := hbalanced _ (balanced_tasks h.balanced hsplits.tasks)
  change Balanced disk.putTasks held (disk.tasks.map runningOf)
  rw [hputTasks, htasks]
  exact hnext.perm ((hsplits.phased next).map runningOf).symm

theorem InStep.writeFile [DecidableEq (KVObject Λ X E)] (h : st.InStep)
    (cfg : LocalDiskConfig K Λ) (key : K) : (st.writeFile cfg key).InStep := by
  rw [DiskPuts.writeFile]
  cases htask : st.disk.taskOf key .queued with
  | none => exact h
  | some task =>
    obtain ⟨_, rfl, hqueued⟩ := taskOf_some htask
    refine h.setPhase htask .written ?_ ?_ fun others hbalanced => ?_
    · rw [DiskState.writeFile, htask]
      rfl
    · rw [DiskState.writeFile, htask]
      rfl
    · exact hbalanced.release rfl (by simp [runningOf, hqueued])

theorem InStep.insertKey (h : st.InStep) (cfg : LocalDiskConfig K Λ) (key : K)
    (hknown : ∀ task, st.disk.taskOf key .written = some task →
      st.disk.dict.contains key = true → st.disk.KnownToPolicy key) :
    InStep { st with disk := st.disk.insertKey cfg key } := by
  rw [DiskState.insertKey]
  cases htask : st.disk.taskOf key .written with
  | none => exact h
  | some task =>
    have hphase : task.phase ≠ .queued := by
      rw [(taskOf_some htask).2.2]
      exact PutPhase.noConfusion
    have hsame : runningOf { task with phase := .entered } = runningOf task :=
      runningOf_setPhase hphase PutPhase.noConfusion
    dsimp only
    split_ifs with hstored
    · cases hupdate : st.disk.policy.updateOnHit key st.disk.dict with
      | none =>
        have hnone := hknown task htask hstored
        rw [DiskState.KnownToPolicy, hupdate] at hnone
        exact absurd hnone (by simp)
      | some updated =>
        exact h.setPhase htask .entered rfl rfl fun others hbalanced => hsame ▸ hbalanced
    · exact h.setPhase htask .entered rfl rfl fun others hbalanced => hsame ▸ hbalanced

theorem InStep.removePutTask [DecidableEq (KVObject Λ X E)] (h : st.InStep) (key : K) :
    InStep { st with disk := st.disk.removePutTask key } := by
  rw [DiskState.removePutTask]
  cases htask : st.disk.taskOf key .entered with
  | none => exact h
  | some task =>
    obtain ⟨rfl, hentered, hsplits⟩ := splits_of_nodup h.registered.nodup htask
    refine ⟨⟨(h.registered.dropTask task.key).nodup, ?_⟩, h.nodup.erase task.key, ?_⟩
    · intro other hother
      obtain ⟨hmem, hkey⟩ := mem_filter.mp hother
      exact (mem_erase_of_ne (of_decide_eq_true hkey)).mpr (h.registered.registered other hmem)
    · have hfinish : Balanced (st.disk.putTasks.erase task.key) _ _ :=
        (balanced_tasks h.balanced hsplits.tasks).finish fun key hkey => by
          obtain ⟨hne, hmem⟩ := h.nodup.mem_erase_iff.mp hkey
          exact ⟨hmem, fun hin => hne (mem_singleton.mp hin)⟩
      have hrefs : (runningOf task).refs = 0 := if_neg (by rw [hentered]; exact PutPhase.noConfusion)
      rw [hrefs, Multiset.sub_zero] at hfinish
      exact hfinish

end Worker

section Others

open DiskState LocalDiskConfig

theorem writes_remove (key : K) :
    (disk.remove key).tasks = disk.tasks ∧ (disk.remove key).putTasks = disk.putTasks := by
  cases hget : disk.dict.get? key with
  | none => rw [remove, hget]; exact ⟨rfl, rfl⟩
  | some m =>
    refine ⟨(remove_spec hget).2.1, ?_⟩
    rw [remove, hget]
    dsimp only [evict]
    cases (disk.files m.path).isSome with
    | false => rfl
    | true => dsimp only; split <;> rfl

theorem writes_readFile (jobId : ℕ) :
    (disk.readFile jobId).tasks = disk.tasks ∧ (disk.readFile jobId).putTasks = disk.putTasks := by
  rw [readFile]
  cases disk.headTarget jobId .allocated with
  | none => exact ⟨rfl, rfl⟩
  | some head =>
    dsimp only
    cases disk.files head.2.1.diskMeta.path with
    | none => exact ⟨rfl, rfl⟩
    | some content => exact ⟨rfl, rfl⟩

theorem writes_other (cfg : LocalDiskConfig K Λ) (disk : DiskState K Λ X E)
    {event : DiskEvent K Λ X E} (h : event.OfOthers) :
    (cfg.exec disk event).tasks = disk.tasks ∧ (cfg.exec disk event).putTasks = disk.putTasks := by
  have hwaits {locked : Bool} {disk' : DiskState K Λ X E}
      (hsame : disk'.tasks = disk.tasks ∧ disk'.putTasks = disk.putTasks) :
      (if locked then disk else disk').tasks = disk.tasks ∧
        (if locked then disk else disk').putTasks = disk.putTasks := by
    cases locked
    exacts [hsame, ⟨rfl, rfl⟩]
  have hrebalanced {disk' : DiskState K Λ X E} (hsame : Rebalanced disk disk') :
      disk'.tasks = disk.tasks ∧ disk'.putTasks = disk.putTasks := ⟨hsame.tasks, hsame.putTasks⟩
  cases event with
  | submitPutTask key memoryObj size => exact h.elim
  | writeFile key => exact h.elim
  | insertKey key => exact h.elim
  | removePutTask key => exact h.elim
  | remove key => exact hwaits (writes_remove disk key)
  | getBlocking jobId key memory =>
    exact hwaits (hrebalanced (rebalanced_getBlocking cfg disk jobId key memory))
  | batchedGetNonBlocking jobId keys =>
    exact hwaits (hrebalanced (rebalanced_finish disk jobId ⟨true, keys, [], []⟩))
  | locate jobId memory => exact hwaits (hrebalanced (rebalanced_locate cfg disk jobId memory))
  | readFile jobId => exact writes_readFile disk jobId
  | takePositions jobId => exact hrebalanced (rebalanced_takePositions disk jobId)
  | unpinLoaded jobId => exact hwaits (hrebalanced (rebalanced_unpinLoaded disk jobId))
  | pin key | unpin key => exact hwaits (hrebalanced (rebalanced_setPins disk key fun _ => rfl))
  | fileLost path => exact ⟨rfl, rfl⟩

end Others

omit [DecidableEq K] in
theorem InStep.congr {disk : DiskState K Λ X E} (h : st.InStep)
    (hsame : disk.tasks = st.disk.tasks ∧ disk.putTasks = st.disk.putTasks) :
    InStep { st with disk := disk } := by
  refine ⟨h.registered.congr hsame.1 hsame.2, hsame.2 ▸ h.nodup, ?_⟩
  have hbalanced := h.balanced
  rw [running] at hbalanced
  change Balanced disk.putTasks st.held (disk.tasks.map runningOf)
  rw [hsame.1, hsame.2]
  exact hbalanced

theorem putTasks_insertKey (cfg : LocalDiskConfig K Λ) (key : K) :
    (disk.insertKey cfg key).putTasks = disk.putTasks := by
  rw [insertKey]
  cases disk.taskOf key .written with
  | none => rfl
  | some task =>
    dsimp only
    split_ifs
    · cases disk.policy.updateOnHit key disk.dict <;> rfl
    · rfl

section Runs

open Execution

variable [DecidableEq (KVObject Λ X E)]

theorem InStep.exec (h : st.InStep) (event : DiskPutEvent K Λ X E)
    (hthrough : st.GoesThrough cfg event) : (st.exec cfg event).InStep := by
  cases event with
  | submitPutTask put => exact h.enters hthrough
  | batchedSubmitPutTask puts => exact h.allEnter hthrough
  | writeFile key => exact h.writeFile cfg key
  | writeFails key left =>
    have hnone : st.disk.taskOf key .queued = none := hthrough
    rw [DiskPuts.exec, writeFails, hnone]
    exact h
  | insertKey key =>
    rw [DiskPuts.exec, LocalDiskConfig.exec]
    split_ifs with hlocked
    · exact h
    · exact h.insertKey cfg key (hthrough (Bool.of_not_eq_true hlocked))
  | insertFails key =>
    rw [DiskPuts.exec]
    split_ifs with hlocked
    · exact h
    · rw [insertFails, hthrough (Bool.of_not_eq_true hlocked)]
      exact h
  | removePutTask key => exact h.removePutTask key
  | other event => exact h.congr (writes_other cfg st.disk event.2)

theorem InStep.stuck_exec (h : st.InStep) (event : DiskPutEvent K Λ X E)
    (hfails : ¬ st.GoesThrough cfg event) : ∃ key, (st.exec cfg event).Stuck key := by
  cases event with
  | submitPutTask put => exact ⟨put.key, h.stuck_of_not_enters hfails⟩
  | batchedSubmitPutTask puts => exact h.stuck_of_not_allEnter hfails
  | writeFile key => exact absurd trivial hfails
  | writeFails key left =>
    obtain ⟨task, htask⟩ := Option.ne_none_iff_exists'.mp hfails
    rw [DiskPuts.exec, writeFails, htask]
    exact ⟨key, h.recorded_of_taskOf htask, fun _ => key_ne_of_mem_dropTask⟩
  | insertKey key =>
    rw [GoesThrough] at hfails
    push Not at hfails
    obtain ⟨hfree, task, htask, hstored, hunknown⟩ := hfails
    have hnone := Option.not_isSome_iff_eq_none.mp hunknown
    refine ⟨key, ?_⟩
    rw [DiskPuts.exec, LocalDiskConfig.exec, if_neg (by simp [hfree]), DiskState.insertKey, htask]
    dsimp only
    rw [if_pos hstored, hnone]
    exact ⟨h.recorded_of_taskOf htask, fun _ => key_ne_of_mem_dropTask⟩
  | insertFails key =>
    rw [GoesThrough] at hfails
    push Not at hfails
    obtain ⟨hfree, hsome⟩ := hfails
    obtain ⟨task, htask⟩ := Option.ne_none_iff_exists'.mp hsome
    rw [DiskPuts.exec, if_neg (by simp [hfree]), insertFails, htask]
    refine ⟨key, ?_, fun _ => key_ne_of_mem_dropTask⟩
    change key ∈ (st.disk.insertKey cfg key).putTasks
    rw [putTasks_insertKey]
    exact h.recorded_of_taskOf htask
  | removePutTask key => exact absurd trivial hfails
  | other event => exact absurd trivial hfails

theorem clear_step_iff (h : st.InStep) (event : DiskPutEvent K Λ X E) :
    (st.exec cfg event).Clear ↔ st.GoesThrough cfg event := by
  refine ⟨fun hclear => ?_, fun hthrough => (h.exec event hthrough).balanced.noneStuck⟩
  by_contra hfails
  obtain ⟨key, hstuck⟩ := h.stuck_exec event hfails
  exact hstuck.not_clear hclear

omit [DecidableEq K] [DecidableEq (KVObject Λ X E)] in
theorem inStep_start (kind : PolicyKind) : (start kind : DiskPuts K Λ X E).InStep where
  registered := ⟨nodup_nil, fun _ h => absurd h not_mem_nil⟩
  nodup := nodup_nil
  balanced := balanced_nil

theorem clear_iff (cfg : LocalDiskConfig K Λ) (kind : PolicyKind)
    (events : List (DiskPutEvent K Λ X E)) :
    Along (exec cfg) (fun st event => (exec cfg st event).Clear) (start kind) events ↔
      Along (exec cfg) (GoesThrough cfg) (start kind) events :=
  along_iff_along (Q := fun _ _ => True) (I := InStep) (fun _ event h _ => h.exec event)
    (fun _ event h _ => clear_step_iff h event) (inStep_start kind)
    (along_of_forall (fun _ _ => trivial) _ _)

end Runs

end DiskPuts

end LMCache
