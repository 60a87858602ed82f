import LMCache.StorageBackend.DiskReadSteps
import LMCache.CacheEngineKey

namespace LMCache

open List DiskCacheMetadata Option

variable {K Λ X E : Type} [DecidableEq K]

namespace DiskState

variable {cfg : LocalDiskConfig K Λ} {st st' : DiskState K Λ X E} {key : K} {jobId : ℕ}
  {job : ReadJob K Λ X E} {target : LoadTarget K Λ X E} {toLoad : List (LoadTarget K Λ X E)}

theorem Stored.rejob (h : st.Stored cfg) (hfewer : Fewer st st') (htasks : st'.tasks = st.tasks)
    (hputTasks : st'.putTasks = st.putTasks) (hhonest : st'.ReadsHonest)
    (hjobs : ∀ id job, st'.jobs.get? id = some job → JobHolds cfg st' job) : st'.Stored cfg where
  honest := hhonest
  registered := by
    refine ⟨?_, ?_⟩
    · rw [htasks]
      exact h.registered.nodup
    · rw [htasks, hputTasks]
      exact h.registered.registered
  entries := hfewer.entries h.entries
  tasks := by
    rw [htasks]
    exact fun task htask => (h.tasks task htask).mono hfewer.files hfewer.puts
  jobs := hjobs

theorem Stored.setJob (h : st.Stored cfg) (hjob : JobHolds cfg st job) :
    (st.setJob jobId job).Stored cfg := by
  have hfewer : Fewer st (st.setJob jobId job) :=
    ⟨fun _ _ h => h, fun _ m h => ⟨m, h, rfl, rfl, rfl⟩, fun _ h => h⟩
  refine h.rejob hfewer rfl rfl ⟨h.honest.returned, h.honest.raised⟩ fun id job' hget => ?_
  change (st.jobs.set jobId job).get? id = some job' at hget
  rw [Dict.get?_set] at hget
  split_ifs at hget
  · obtain rfl := some.inj hget
    exact hjob.mono hfewer
  · exact (h.jobs id job' hget).mono hfewer

def EndsHonestly (st : DiskState K Λ X E) : ReadAnswer K Λ X E → Prop
  | .returned objs => ∀ p ∈ objs, p ∈ st.puts
  | .missing _ => True
  | .raised lockHeld buffers => lockHeld = false ∧ buffers = 0

variable {ans : ReadAnswer K Λ X E}

omit [DecidableEq K] in
theorem ReadsHonest.snoc (h : st.ReadsHonest) (hputs : ∀ p ∈ st.puts, p ∈ st'.puts)
    (hanswers : st'.answers = st.answers ++ [ans]) (hans : EndsHonestly st ans) :
    st'.ReadsHonest := by
  refine ⟨fun objs hmem p hp => hputs p ?_, fun lockHeld buffers hmem => ?_⟩
  · rw [hanswers] at hmem
    rcases mem_append.mp hmem with hold | hnew
    · exact h.returned objs hold p hp
    · obtain rfl := mem_singleton.mp hnew
      exact hans p hp
  · rw [hanswers] at hmem
    rcases mem_append.mp hmem with hold | hnew
    · exact h.raised lockHeld buffers hold
    · obtain rfl := mem_singleton.mp hnew
      exact hans

theorem Stored.ended (h : st.Stored cfg) (hfewer : Fewer st st') (htasks : st'.tasks = st.tasks)
    (hputTasks : st'.putTasks = st.putTasks) (hjobs : st'.jobs = st.jobs.erase jobId)
    (hanswers : st'.answers = st.answers ++ [ans]) (hans : EndsHonestly st ans) :
    st'.Stored cfg := by
  refine h.rejob hfewer htasks hputTasks (h.honest.snoc hfewer.puts hanswers hans)
    fun id job' hget => ?_
  rw [hjobs, Dict.get?_erase] at hget
  split_ifs at hget
  exact (h.jobs id job' hget).mono hfewer

theorem Stored.answer (h : st.Stored cfg) (hans : EndsHonestly st ans) :
    (st.answer ans).Stored cfg :=
  have hfewer : Fewer st (st.answer ans) :=
    ⟨fun _ _ h => h, fun _ m h => ⟨m, h, rfl, rfl, rfl⟩, fun _ h => h⟩
  h.rejob hfewer rfl rfl (h.honest.snoc (fun _ h => h) rfl hans)
    fun id job hget => (h.jobs id job hget).mono hfewer

theorem Stored.finish (h : st.Stored cfg) (hjob : JobHolds cfg st job) :
    (st.finish jobId job).Stored cfg := by
  rw [DiskState.finish]
  split_ifs
  · have hends : EndsHonestly st (.returned job.loaded) := hjob.loaded
    exact h.ended ⟨fun _ _ h => h, fun _ m h => ⟨m, h, rfl, rfl, rfl⟩, fun _ h => h⟩ rfl rfl rfl rfl hends
  · exact h.setJob hjob

theorem targetHolds_allocated {m : DiskCacheMetadata Λ X} (h : st.Stored cfg)
    (hget : st.dict.get? key = some m) (memory : ℕ → ℕ) :
    TargetHolds cfg st (allocated cfg key m memory) where
  allocated _ := ⟨h.entries key m hget, memory, rfl⟩
  read hphase := absurd hphase (by simp [DiskState.allocated])
  agrees _ m' hget' := by
    obtain rfl : m = m' := some.inj (hget.symm.trans hget')
    rfl
  positioned hphase := absurd hphase (by simp [DiskState.allocated])

theorem jobHolds_empty (prefetch : Bool) (keys : List K) :
    JobHolds cfg st ⟨prefetch, keys, [], []⟩ :=
  ⟨fun _ h => absurd h not_mem_nil, fun _ h => absurd h not_mem_nil⟩

def KnownToPolicy (st : DiskState K Λ X E) (key : K) : Prop :=
  (st.policy.updateOnHit key st.dict).isSome

theorem stored_getBlocking (h : st.Stored cfg) (memory : Option (ℕ → ℕ))
    (hknown : st.dict.contains key = true → st.KnownToPolicy key) :
    (st.getBlocking cfg jobId key memory).Stored cfg := by
  rw [getBlocking]
  cases hget : st.dict.get? key with
  | none => exact h.answer trivial
  | some m =>
    obtain ⟨⟨policy, dict⟩, hupdate⟩ :=
      isSome_iff_exists.mp (hknown (by rw [Dict.contains, hget]; rfl))
    have hfewer := fewer_hit hupdate
    have hhit : ({ st with policy := policy, dict := dict }).Stored cfg :=
      h.fewer hfewer ⟨rfl, rfl, fun _ h => h, rfl⟩
    dsimp only
    rw [hupdate]
    cases memory with
    | none =>
      have hends : EndsHonestly (X := X) (E := E) { st with policy := policy, dict := dict }
          (.raised false 0) := ⟨rfl, rfl⟩
      refine hhit.ended ?_ rfl rfl rfl ?_ hends
      · exact ⟨fun _ _ h => h, fun _ m h => ⟨m, h, rfl, rfl, rfl⟩, fun _ h => h⟩
      · rfl
    | some memory =>
      refine hhit.setJob ⟨fun t ht => ?_, fun _ h => absurd h not_mem_nil⟩
      obtain rfl := mem_singleton.mp ht
      exact (targetHolds_allocated h hget memory).mono hfewer

theorem stored_locate (h : st.Stored cfg) (memory : Option (ℕ → ℕ))
    (hlocated : ∀ job key keys, st.jobs.get? jobId = some job → job.toLocate = key :: keys →
      st.dict.contains key = true ∧ memory.isSome ∧ (st.setPins key pin).KnownToPolicy key) :
    (st.locate cfg jobId memory).Stored cfg := by
  rw [locate]
  cases hjob : st.jobs.get? jobId with
  | none => exact h
  | some job =>
    dsimp only
    cases hkeys : job.toLocate with
    | nil => exact h
    | cons key keys =>
      obtain ⟨hstored, hmemory, hknown⟩ := hlocated job key keys hjob hkeys
      obtain ⟨m, hget⟩ := isSome_iff_exists.mp hstored
      obtain ⟨memory, rfl⟩ := isSome_iff_exists.mp hmemory
      obtain ⟨⟨policy, dict⟩, hupdate⟩ := isSome_iff_exists.mp hknown
      obtain ⟨hpinned, hsame⟩ := fewer_setPins (f := pin) st key
        fun _ => ⟨rfl, rfl, rfl⟩
      have hfewer := hpinned.trans (fewer_hit hupdate)
      have hhit : ({ st.setPins key pin with
          policy := policy, dict := dict }).Stored cfg :=
        h.fewer hfewer ⟨hsame.answers, hsame.tasks, hsame.putTasks, hsame.jobs⟩
      dsimp only
      unfold locateKey
      rw [hget]
      dsimp only
      rw [hupdate]
      refine hhit.setJob ⟨fun t ht => ?_, fun p hp => ?_⟩
      · rcases mem_append.mp ht with hold | hnew
        · exact ((h.jobs jobId job hjob).targets t hold).mono hfewer
        · obtain rfl := mem_singleton.mp hnew
          exact (targetHolds_allocated h hget memory).mono hfewer
      · exact hfewer.puts p ((h.jobs jobId job hjob).loaded p hp)

variable {phase : LoadPhase}

omit [DecidableEq K] in
theorem headTarget_some (h : st.headTarget jobId phase = some (job, target, toLoad)) :
    st.jobs.get? jobId = some job ∧ job.toLoad = target :: toLoad ∧ target.phase = phase := by
  obtain ⟨job', hjob, hmatch⟩ := bind_eq_some_iff.mp h
  split at hmatch
  · rename_i target' toLoad' _ hload
    split_ifs at hmatch with hphase
    obtain ⟨rfl, rfl, rfl⟩ : job' = job ∧ target' = target ∧ toLoad' = toLoad := by
      simpa using hmatch
    exact ⟨hjob, hload, hphase⟩
  · exact absurd hmatch (by simp)

theorem JobHolds.head (h : st.Stored cfg)
    (hhead : st.headTarget jobId phase = some (job, target, toLoad)) :
    TargetHolds cfg st target ∧ (∀ t ∈ toLoad, TargetHolds cfg st t) ∧
      ∀ p ∈ job.loaded, p ∈ st.puts := by
  obtain ⟨hjob, hload, _⟩ := headTarget_some hhead
  have hholds := h.jobs jobId job hjob
  refine ⟨hholds.targets target ?_, fun t ht => hholds.targets t ?_, hholds.loaded⟩
  · rw [hload]
    exact mem_cons_self
  · rw [hload]
    exact mem_cons_of_mem _ ht

theorem Stored.replaceHead (h : st.Stored cfg) (htarget : TargetHolds cfg st target)
    (hrest : ∀ t ∈ toLoad, TargetHolds cfg st t) (hloaded : ∀ p ∈ job.loaded, p ∈ st.puts) :
    (st.replaceHead jobId job target toLoad).Stored cfg := by
  refine h.setJob ⟨fun t ht => ?_, hloaded⟩
  rcases mem_cons.mp ht with rfl | ht
  · exact htarget
  · exact hrest t ht

theorem Stored.finishHead (h : st.Stored cfg) (htarget : (target.key, target.memoryObj) ∈ st.puts)
    (hrest : ∀ t ∈ toLoad, TargetHolds cfg st t) (hloaded : ∀ p ∈ job.loaded, p ∈ st.puts) :
    (st.finishHead jobId job target toLoad).Stored cfg := by
  refine h.finish ⟨hrest, fun p hp => ?_⟩
  rcases mem_append.mp hp with hold | hnew
  · exact hloaded p hold
  · obtain rfl := mem_singleton.mp hnew
    exact htarget

theorem readInto_of_length_eq {content buffer : List ℕ} (h : content.length = buffer.length) :
    readInto content buffer = content := by
  rw [readInto, ← h, take_length, drop_eq_nil_of_le (by omega), append_nil]

variable {content : List ℕ}

theorem length_eq_of_file (htarget : TargetHolds cfg st target) (hphase : target.phase = .allocated)
    (hcontent : st.files target.diskMeta.path = some content) :
    content.length = target.memoryObj.bytes.length := by
  obtain ⟨hentry, memory, hallocated⟩ := htarget.allocated hphase
  rw [hentry.path] at hcontent
  obtain ⟨memoryObj, -, hplain, hbytes, hlayout, -⟩ := hentry.file content hcontent
  rw [← hbytes, hplain.length, hlayout, hallocated]
  simp [DiskState.allocated]

theorem targetHolds_filled (htarget : TargetHolds cfg st target)
    (hphase : target.phase = .allocated) (hcontent : st.files target.diskMeta.path = some content) :
    TargetHolds cfg st (filled target content) := by
  have hlength := length_eq_of_file htarget hphase hcontent
  obtain ⟨hentry, memory, hallocated⟩ := htarget.allocated hphase
  rw [hentry.path] at hcontent
  obtain ⟨memoryObj, hput, hplain, hbytes, hlayout, hpositions⟩ := hentry.file content hcontent
  refine ⟨fun h => absurd h (by simp [filled]), fun _ => ⟨⟨memoryObj, hput, hplain, ?_, ?_,
    hpositions⟩, ?_, ?_⟩, fun _ => htarget.agrees (by simp [hphase]), fun h => absurd h (by simp [filled])⟩
  · exact hbytes.trans (readInto_of_length_eq hlength).symm
  · rw [hlayout, filled, hallocated]
    rfl
  · rw [filled, hallocated]
    rfl
  · rw [filled, hallocated]
    rfl

theorem stored_readFile (h : st.Stored cfg)
    (hfound : ∀ job target toLoad, st.headTarget jobId .allocated = some (job, target, toLoad) →
      (st.files target.diskMeta.path).isSome) : (st.readFile jobId).Stored cfg := by
  rw [readFile]
  cases hhead : st.headTarget jobId .allocated with
  | none => exact h
  | some found =>
    obtain ⟨job, target, toLoad⟩ := found
    obtain ⟨content, hcontent⟩ := isSome_iff_exists.mp (hfound job target toLoad hhead)
    obtain ⟨htarget, hrest, hloaded⟩ := JobHolds.head h hhead
    dsimp only
    rw [hcontent]
    exact h.replaceHead (targetHolds_filled htarget (headTarget_some hhead).2.2 hcontent) hrest hloaded

theorem positioned_mem_puts {entry : DiskCacheMetadata Λ X} (htarget : TargetHolds cfg st target)
    (hphase : target.phase = .read) (hget : st.dict.get? target.key = some entry) :
    (target.key, (positioned target entry.cachedPositions).memoryObj) ∈ st.puts := by
  obtain ⟨⟨memoryObj, hput, hplain, hbytes, hlayout, hpositions⟩, hgroups, hextra⟩ :=
    htarget.read hphase
  have hentry := htarget.agrees (by simp [hphase]) entry hget
  have heq : memoryObj = (positioned target entry.cachedPositions).memoryObj := by
    obtain ⟨bytes, layout, otherGroups, cachedPositions, extra⟩ := memoryObj
    obtain rfl : otherGroups = [] := hplain.otherGroups
    obtain rfl : extra = none := hplain.extra
    dsimp only at hbytes hlayout hpositions
    rw [positioned, hentry, ← hpositions, hbytes, hlayout, ← hgroups, ← hextra]
  exact heq ▸ hput

theorem stored_takePositions (h : st.Stored cfg)
    (hstored : ∀ job target toLoad, st.headTarget jobId .read = some (job, target, toLoad) →
      st.dict.contains target.key = true) : (st.takePositions jobId).Stored cfg := by
  rw [takePositions]
  cases hhead : st.headTarget jobId .read with
  | none => exact h
  | some found =>
    obtain ⟨job, target, toLoad⟩ := found
    obtain ⟨entry, hget⟩ := isSome_iff_exists.mp (hstored job target toLoad hhead)
    obtain ⟨htarget, hrest, hloaded⟩ := JobHolds.head h hhead
    have hput := positioned_mem_puts htarget (headTarget_some hhead).2.2 hget
    dsimp only
    rw [hget]
    dsimp only
    split_ifs
    · refine h.replaceHead ⟨fun h => ?_, fun h => ?_, fun h => ?_, fun _ => hput⟩ hrest hloaded
      · exact absurd h (by simp [positioned])
      · exact absurd h (by simp [positioned])
      · exact absurd rfl h
    · exact h.finishHead hput hrest hloaded

theorem stored_unpinLoaded (h : st.Stored cfg)
    (hstored : ∀ job target toLoad, st.headTarget jobId .positioned = some (job, target, toLoad) →
      st.dict.contains target.key = true) : (st.unpinLoaded jobId).Stored cfg := by
  rw [unpinLoaded]
  cases hhead : st.headTarget jobId .positioned with
  | none => exact h
  | some found =>
    obtain ⟨job, target, toLoad⟩ := found
    obtain ⟨htarget, hrest, hloaded⟩ := JobHolds.head h hhead
    obtain ⟨hfewer, hsame⟩ := fewer_setPins (f := unpin) st target.key
      fun _ => ⟨rfl, rfl, rfl⟩
    dsimp only
    rw [if_pos (hstored job target toLoad hhead)]
    refine (h.fewer hfewer hsame).finishHead ?_ (fun t ht => (hrest t ht).mono hfewer)
      fun p hp => hfewer.puts p (hloaded p hp)
    exact hfewer.puts _ (htarget.positioned (headTarget_some hhead).2.2)

end DiskState

open Execution

namespace LocalDiskConfig

open DiskState

section SoundSteps

variable {K Λ X E : Type} [DecidableEq K] {cfg : LocalDiskConfig K Λ} {st : DiskState K Λ X E}

def SoundStep (cfg : LocalDiskConfig K Λ) (st : DiskState K Λ X E) : DiskEvent K Λ X E → Prop
  | .submitPutTask key memoryObj _ =>
      st.locked = false → key ∉ st.putTasks → Plain cfg memoryObj
  | .writeFile key => ∀ task, st.taskOf key .queued = some task → WriteAgrees cfg st task
  | .insertKey key => st.locked = false → ∀ task, st.taskOf key .written = some task →
      st.dict.contains key = false → InsertAgrees st task
  | .getBlocking jobId key _ => st.locked = false → st.jobs.contains jobId = false →
      st.dict.contains key = true → st.KnownToPolicy key
  | .locate jobId memory => st.locked = false → ∀ job key keys, st.jobs.get? jobId = some job →
      job.toLocate = key :: keys → st.dict.contains key = true ∧ memory.isSome ∧
        (st.setPins key pin).KnownToPolicy key
  | .readFile jobId => ∀ job target toLoad,
      st.headTarget jobId .allocated = some (job, target, toLoad) →
        (st.files target.diskMeta.path).isSome
  | .takePositions jobId => ∀ job target toLoad,
      st.headTarget jobId .read = some (job, target, toLoad) → st.dict.contains target.key = true
  | .unpinLoaded jobId => st.locked = false → ∀ job target toLoad,
      st.headTarget jobId .positioned = some (job, target, toLoad) →
        st.dict.contains target.key = true
  | _ => True

def FillsBuffer (cfg : LocalDiskConfig K Λ) (st : DiskState K Λ X E) : DiskEvent K Λ X E → Prop
  | .readFile jobId => ∀ job target toLoad,
      st.headTarget jobId .allocated = some (job, target, toLoad) →
        ∃ content, st.files (cfg.keyToPath target.key) = some content ∧
          st.readFile jobId = st.replaceHead jobId job (filled target content) toLoad ∧
            (filled target content).memoryObj.bytes = content
  | _ => True

theorem stored_start (cfg : LocalDiskConfig K Λ) (kind : PolicyKind) :
    (start kind : DiskState K Λ X E).Stored cfg where
  honest := ⟨fun _ h => absurd h not_mem_nil, fun _ _ h => absurd h not_mem_nil⟩
  registered := ⟨nodup_nil, fun _ h => absurd h not_mem_nil⟩
  entries _ _ h := absurd h (by simp [start])
  tasks _ h := absurd h not_mem_nil
  jobs _ _ h := absurd h (by simp [start])

variable (event : DiskEvent K Λ X E)

theorem stored_step (h : st.Stored cfg) (hsound : SoundStep cfg st event) :
    (cfg.exec st event).Stored cfg := by
  have hwhile : ∀ st' : DiskState K Λ X E, (st.locked = false → st'.Stored cfg) →
      (if st.locked then st else st').Stored cfg := by
    intro st' hst'
    split_ifs with hlocked
    · exact h
    · exact hst' (by simpa using hlocked)
  cases event with
  | submitPutTask key memoryObj size =>
    exact hwhile _ fun hlocked => stored_submitPutTask h (hsound hlocked)
  | writeFile key => exact stored_writeFile h key hsound
  | insertKey key => exact hwhile _ fun hlocked => stored_insertKey h key (hsound hlocked)
  | removePutTask key => exact stored_removePutTask h key
  | remove key => exact hwhile _ fun _ => h.fewer (fewer_remove st key).1 (fewer_remove st key).2
  | getBlocking jobId key memory =>
    rw [exec]
    split_ifs with hbusy
    · exact h
    · obtain ⟨hlocked, hfree⟩ : st.locked = false ∧ st.jobs.contains jobId = false := by
        simpa using hbusy
      exact stored_getBlocking h memory (hsound hlocked hfree)
  | batchedGetNonBlocking jobId keys =>
    rw [exec]
    split_ifs
    · exact h
    · exact h.finish (jobHolds_empty true keys)
  | locate jobId memory => exact hwhile _ fun hlocked => stored_locate h memory (hsound hlocked)
  | readFile jobId => exact stored_readFile h hsound
  | takePositions jobId => exact stored_takePositions h hsound
  | unpinLoaded jobId => exact hwhile _ fun hlocked => stored_unpinLoaded h (hsound hlocked)
  | pin key =>
    obtain ⟨hfewer, hsame⟩ := fewer_setPins (f := pin) st key
      fun _ => ⟨rfl, rfl, rfl⟩
    exact hwhile _ fun _ => h.fewer hfewer hsame
  | unpin key =>
    obtain ⟨hfewer, hsame⟩ := fewer_setPins (f := unpin) st key
      fun _ => ⟨rfl, rfl, rfl⟩
    exact hwhile _ fun _ => h.fewer hfewer hsame
  | fileLost path => exact h.fewer (fewer_setFile_none st path) ⟨rfl, rfl, fun _ h => h, rfl⟩

theorem fillsBuffer_of_sound (h : st.Stored cfg) (hsound : SoundStep cfg st event) :
    FillsBuffer cfg st event := by
  cases event with
  | readFile jobId =>
    intro job target toLoad hhead
    obtain ⟨content, hcontent⟩ := isSome_iff_exists.mp (hsound job target toLoad hhead)
    obtain ⟨htarget, -, -⟩ := JobHolds.head h hhead
    have hentry := (htarget.allocated (headTarget_some hhead).2.2).1
    refine ⟨content, hentry.path ▸ hcontent, ?_, ?_⟩
    · rw [DiskState.readFile, hhead]
      dsimp only
      rw [hcontent]
    · exact readInto_of_length_eq (length_eq_of_file htarget (headTarget_some hhead).2.2 hcontent)
  | _ => trivial

theorem reads_stored (cfg : LocalDiskConfig K Λ) (kind : PolicyKind)
    (events : List (DiskEvent K Λ X E)) (hsound : Along cfg.exec (SoundStep cfg) (start kind) events) :
    (∀ pre rest, events = pre ++ rest → (final cfg.exec (start kind) pre).ReadsHonest) ∧
      Along cfg.exec (FillsBuffer cfg) (start kind) events := by
  have hstep : ∀ (st : DiskState K Λ X E) event, st.Stored cfg → SoundStep cfg st event →
      (cfg.exec st event).Stored cfg := fun _ event h hsound => stored_step event h hsound
  have hstart := stored_start (X := X) (E := E) cfg kind
  refine ⟨(forall_prefix_iff (I := ReadsHonest) _ _).mpr ⟨hstart.honest, ?_⟩, ?_⟩
  · exact along_of_invariant hstep (fun st event h hsound => (hstep st event h hsound).honest)
      hstart hsound
  · exact along_of_invariant hstep (fun _ event h hsound => fillsBuffer_of_sound event h hsound)
      hstart hsound

end SoundSteps

def chunkDisk : LocalDiskConfig CacheEngineKey Unit := ⟨['k', 'v'], CacheEngineKey.toStr, 8, fun _ => 2⟩

def modelKey (modelName : List Char) : CacheEngineKey := ⟨modelName, 1, 0, 5, ['h', 'a', 'l', 'f'], []⟩

def chunkObj (bytes : List ℕ) : KVObject Unit Unit Unit := ⟨bytes, (), [], (), none⟩

def storeChunk (key : CacheEngineKey) (bytes : List ℕ) :
    List (DiskEvent CacheEngineKey Unit Unit Unit) :=
  [.submitPutTask key (chunkObj bytes) 2, .writeFile key, .insertKey key, .removePutTask key]

def loadChunk (key : CacheEngineKey) : List (DiskEvent CacheEngineKey Unit Unit Unit) :=
  [.getBlocking 0 key (some fun _ => 0), .readFile 0, .takePositions 0]

theorem reads_stored_loaded :
    (∀ pre rest, storeChunk (modelKey ['m']) [1, 2] ++ loadChunk (modelKey ['m']) = pre ++ rest →
        (final chunkDisk.exec (start .lru) pre).ReadsHonest) ∧
      Along chunkDisk.exec (FillsBuffer chunkDisk) (start .lru)
        (storeChunk (modelKey ['m']) [1, 2] ++ loadChunk (modelKey ['m'])) := by
  refine reads_stored chunkDisk .lru _ ⟨?_, ?_, ?_, trivial, ?_, ?_, ?_, trivial⟩
  · exact fun _ _ => ⟨rfl, rfl, rfl⟩
  · refine fun task _ => ⟨fun _ m h => absurd h (some_ne_none m).symm, fun t ht hphase => ?_,
      fun _ job h => absurd h (some_ne_none job).symm⟩
    obtain rfl := mem_singleton.mp ht
    exact absurd hphase (by decide)
  · exact fun _ _ _ _ _ job h => absurd h (some_ne_none job).symm
  · exact fun _ _ _ => by unfold KnownToPolicy; decide
  · intro job target toLoad h
    obtain ⟨rfl, rfl, rfl⟩ := h
    rfl
  · intro job target toLoad h
    obtain ⟨rfl, rfl, rfl⟩ := h
    rfl

theorem not_reads_stored_slash :
    ¬ (final chunkDisk.exec (start .lru) (storeChunk (modelKey ['a', '/', 'b']) [1, 2] ++
      storeChunk (modelKey ['a', '-', 'b']) [3, 4] ++
      loadChunk (modelKey ['a', '/', 'b']))).ReadsHonest := by
  intro h
  have hreturned := h.returned [(modelKey ['a', '/', 'b'], chunkObj [3, 4])]
    (mem_of_getElem? (i := 0) rfl) _ mem_cons_self
  revert hreturned
  decide

end LocalDiskConfig

end LMCache
