import LMCache.StorageBackend.DiskCapacity

namespace LMCache

variable {K Λ X E : Type} [DecidableEq K]

namespace DiskState

variable {cfg : LocalDiskConfig K Λ} {st st' : DiskState K Λ X E} {key : K}
  {diskMeta : DiskCacheMetadata Λ X} {target : LoadTarget K Λ X E}

structure ReadsHonest (st : DiskState K Λ X E) : Prop where
  returned : ∀ objs, .returned objs ∈ st.answers → ∀ p ∈ objs, p ∈ st.puts
  raised : ∀ lockHeld buffers, .raised lockHeld buffers ∈ st.answers →
    lockHeld = false ∧ buffers = 0

structure Plain (cfg : LocalDiskConfig K Λ) (memoryObj : KVObject Λ X E) : Prop where
  otherGroups : memoryObj.otherGroups = []
  extra : memoryObj.extra = none
  length : memoryObj.bytes.length = cfg.bufferSize memoryObj.layout

def PutWith (cfg : LocalDiskConfig K Λ) (st : DiskState K Λ X E) (key : K) (bytes : List ℕ)
    (layout : Λ) (cachedPositions : X) : Prop :=
  ∃ memoryObj, (key, memoryObj) ∈ st.puts ∧ Plain cfg memoryObj ∧ memoryObj.bytes = bytes ∧
    memoryObj.layout = layout ∧ memoryObj.cachedPositions = cachedPositions

def FileHolds (cfg : LocalDiskConfig K Λ) (st : DiskState K Λ X E) (key : K) (layout : Λ)
    (cachedPositions : X) : Prop :=
  ∀ content, st.files (cfg.keyToPath key) = some content →
    PutWith cfg st key content layout cachedPositions

def SameMeta (m m' : DiskCacheMetadata Λ X) : Prop :=
  m'.layout = m.layout ∧ m'.cachedPositions = m.cachedPositions

structure EntryHolds (cfg : LocalDiskConfig K Λ) (st : DiskState K Λ X E) (key : K)
    (diskMeta : DiskCacheMetadata Λ X) : Prop where
  path : diskMeta.path = cfg.keyToPath key
  file : FileHolds cfg st key diskMeta.layout diskMeta.cachedPositions

structure TargetHolds (cfg : LocalDiskConfig K Λ) (st : DiskState K Λ X E)
    (target : LoadTarget K Λ X E) : Prop where
  allocated : target.phase = .allocated → EntryHolds cfg st target.key target.diskMeta ∧
    ∃ memory : ℕ → ℕ, target = allocated cfg target.key target.diskMeta memory
  read : target.phase = .read → PutWith cfg st target.key target.memoryObj.bytes
      target.memoryObj.layout target.diskMeta.cachedPositions ∧
    target.memoryObj.otherGroups = [] ∧ target.memoryObj.extra = none
  agrees : target.phase ≠ .positioned → ∀ m, st.dict.get? target.key = some m →
    m.cachedPositions = target.diskMeta.cachedPositions
  positioned : target.phase = .positioned → (target.key, target.memoryObj) ∈ st.puts

structure JobHolds (cfg : LocalDiskConfig K Λ) (st : DiskState K Λ X E) (job : ReadJob K Λ X E) :
    Prop where
  targets : ∀ target ∈ job.toLoad, TargetHolds cfg st target
  loaded : ∀ p ∈ job.loaded, p ∈ st.puts

structure Registered (st : DiskState K Λ X E) : Prop where
  nodup : (st.tasks.map DiskPutTask.key).Nodup
  registered : ∀ task ∈ st.tasks, task.key ∈ st.putTasks

omit [DecidableEq K] in
theorem Registered.congr (h : st.Registered) (htasks : st'.tasks = st.tasks)
    (hputTasks : st'.putTasks = st.putTasks) : st'.Registered where
  nodup := htasks ▸ h.nodup
  registered := by
    rw [htasks, hputTasks]
    exact h.registered

structure TaskHolds (cfg : LocalDiskConfig K Λ) (st : DiskState K Λ X E)
    (task : DiskPutTask K Λ X E) : Prop where
  put : (task.key, task.memoryObj) ∈ st.puts
  plain : Plain cfg task.memoryObj
  file : task.phase = .written →
    FileHolds cfg st task.key task.memoryObj.layout task.memoryObj.cachedPositions

structure Stored (cfg : LocalDiskConfig K Λ) (st : DiskState K Λ X E) : Prop where
  honest : st.ReadsHonest
  registered : st.Registered
  entries : ∀ key m, st.dict.get? key = some m → EntryHolds cfg st key m
  tasks : ∀ task ∈ st.tasks, TaskHolds cfg st task
  jobs : ∀ jobId job, st.jobs.get? jobId = some job → JobHolds cfg st job

structure Fewer (st st' : DiskState K Λ X E) : Prop where
  files : ∀ path content, st'.files path = some content → st.files path = some content
  dict : ∀ key m', st'.dict.get? key = some m' →
    ∃ m, st.dict.get? key = some m ∧ m'.path = m.path ∧ SameMeta m m'
  puts : ∀ p ∈ st.puts, p ∈ st'.puts

omit [DecidableEq K] in
theorem PutWith.mono {bytes : List ℕ} {layout : Λ} {cachedPositions : X}
    (hputs : ∀ p ∈ st.puts, p ∈ st'.puts) (h : PutWith cfg st key bytes layout cachedPositions) :
    PutWith cfg st' key bytes layout cachedPositions := by
  obtain ⟨memoryObj, hmem, hrest⟩ := h
  exact ⟨memoryObj, hputs _ hmem, hrest⟩

section Files

variable (hfiles : ∀ path content, st'.files path = some content → st.files path = some content)
  (hputs : ∀ p ∈ st.puts, p ∈ st'.puts)

include hfiles hputs

omit [DecidableEq K] in
theorem FileHolds.mono {layout : Λ} {cachedPositions : X}
    (h : FileHolds cfg st key layout cachedPositions) :
    FileHolds cfg st' key layout cachedPositions :=
  fun content hcontent => (h content (hfiles _ _ hcontent)).mono hputs

omit [DecidableEq K] in
theorem EntryHolds.mono (h : EntryHolds cfg st key diskMeta) : EntryHolds cfg st' key diskMeta :=
  ⟨h.path, h.file.mono hfiles hputs⟩

omit [DecidableEq K] in
theorem TaskHolds.mono {task : DiskPutTask K Λ X E} (h : TaskHolds cfg st task) :
    TaskHolds cfg st' task :=
  ⟨hputs _ h.put, h.plain, fun hphase => (h.file hphase).mono hfiles hputs⟩

end Files

theorem TargetHolds.mono (hfewer : Fewer st st') (h : TargetHolds cfg st target) :
    TargetHolds cfg st' target where
  allocated hphase :=
    ⟨(h.allocated hphase).1.mono hfewer.files hfewer.puts, (h.allocated hphase).2⟩
  read hphase := ⟨(h.read hphase).1.mono hfewer.puts, (h.read hphase).2⟩
  agrees hphase m' hget := by
    obtain ⟨m, hm, _, hsame⟩ := hfewer.dict _ _ hget
    exact hsame.2.trans (h.agrees hphase m hm)
  positioned hphase := hfewer.puts _ (h.positioned hphase)

theorem JobHolds.mono (hfewer : Fewer st st') {job : ReadJob K Λ X E}
    (h : JobHolds cfg st job) : JobHolds cfg st' job :=
  ⟨fun t ht => (h.targets t ht).mono hfewer, fun p hp => hfewer.puts p (h.loaded p hp)⟩

theorem Fewer.entries (hfewer : Fewer st st')
    (h : ∀ key m, st.dict.get? key = some m → EntryHolds cfg st key m) :
    ∀ key m, st'.dict.get? key = some m → EntryHolds cfg st' key m := by
  intro key m' hget
  obtain ⟨m, hm, hpath, hlayout, hpositions⟩ := hfewer.dict key m' hget
  have hholds := (h key m hm).mono hfewer.files hfewer.puts
  refine ⟨hpath.trans hholds.path, ?_⟩
  rw [hlayout, hpositions]
  exact hholds.file

theorem Fewer.refl (st : DiskState K Λ X E) : Fewer st st :=
  ⟨fun _ _ h => h, fun _ m h => ⟨m, h, rfl, rfl, rfl⟩, fun _ h => h⟩

theorem Fewer.trans {st'' : DiskState K Λ X E} (h : Fewer st st') (h' : Fewer st' st'') :
    Fewer st st'' where
  files path content hcontent := h.files _ _ (h'.files _ _ hcontent)
  dict key m'' hget := by
    obtain ⟨m', hm', hpath', hlayout', hpositions'⟩ := h'.dict key m'' hget
    obtain ⟨m, hm, hpath, hlayout, hpositions⟩ := h.dict key m' hm'
    exact ⟨m, hm, hpath'.trans hpath, hlayout'.trans hlayout, hpositions'.trans hpositions⟩
  puts p hp := h'.puts p (h.puts p hp)

structure SameRunning (st st' : DiskState K Λ X E) : Prop where
  answers : st'.answers = st.answers
  tasks : st'.tasks = st.tasks
  putTasks : ∀ key ∈ st.putTasks, key ∈ st'.putTasks
  jobs : st'.jobs = st.jobs

omit [DecidableEq K] in
theorem SameRunning.refl (st : DiskState K Λ X E) : SameRunning st st := ⟨rfl, rfl, fun _ h => h, rfl⟩

omit [DecidableEq K] in
theorem ReadsHonest.mono (hputs : ∀ p ∈ st.puts, p ∈ st'.puts) (hanswers : st'.answers = st.answers)
    (h : st.ReadsHonest) : st'.ReadsHonest := by
  refine ⟨?_, ?_⟩
  · rw [hanswers]
    exact fun objs hobjs p hp => hputs p (h.returned objs hobjs p hp)
  · rw [hanswers]
    exact h.raised

theorem Stored.retask (h : st.Stored cfg) (hfewer : Fewer st st')
    (hanswers : st'.answers = st.answers) (hjobs : st'.jobs = st.jobs)
    (hregistered : st'.Registered) (htasks : ∀ task ∈ st'.tasks, TaskHolds cfg st task) :
    st'.Stored cfg where
  honest := h.honest.mono hfewer.puts hanswers
  registered := hregistered
  entries := hfewer.entries h.entries
  tasks task htask := (htasks task htask).mono hfewer.files hfewer.puts
  jobs := by
    rw [hjobs]
    exact fun jobId job hjob => (h.jobs jobId job hjob).mono hfewer

theorem Stored.fewer (h : st.Stored cfg) (hfewer : Fewer st st') (hsame : SameRunning st st') :
    st'.Stored cfg := by
  refine h.retask hfewer hsame.answers hsame.jobs ⟨?_, ?_⟩ ?_
  · rw [hsame.tasks]
    exact h.registered.nodup
  · rw [hsame.tasks]
    exact fun task htask => hsame.putTasks _ (h.registered.registered task htask)
  · rw [hsame.tasks]
    exact h.tasks

end DiskState

end LMCache

namespace LMCache

variable {K Λ X E : Type} [DecidableEq K]

namespace DiskState

variable {cfg : LocalDiskConfig K Λ} {st : DiskState K Λ X E} {key : K} {size jobId : ℕ}
  {task : DiskPutTask K Λ X E} {job : ReadJob K Λ X E} {target : LoadTarget K Λ X E}

section Fewer

theorem fewer_evict (st : DiskState K Λ X E) (key : K) (m : DiskCacheMetadata Λ X) :
    Fewer st (st.evict key m).1 := by
  refine ⟨fun path content hcontent => ?_, fun key' m' hget => ?_, fun _ h => h⟩
  · change (if path = m.path then none else st.files path) = some content at hcontent
    split_ifs at hcontent
    exact hcontent
  · change (st.dict.erase key).get? key' = some m' at hget
    rw [Dict.get?_erase] at hget
    split_ifs at hget
    exact ⟨m', hget, rfl, rfl, rfl⟩

theorem fewer_setFile_none (st : DiskState K Λ X E) (path : List Char) :
    Fewer st (st.setFile path none) := by
  refine ⟨fun path' content hcontent => ?_, fun _ m h => ⟨m, h, rfl, rfl, rfl⟩, fun _ h => h⟩
  change (if path' = path then none else st.files path') = some content at hcontent
  split_ifs at hcontent
  exact hcontent

theorem fewer_setPins (st : DiskState K Λ X E) (key : K)
    {f : DiskCacheMetadata Λ X → DiskCacheMetadata Λ X}
    (hf : ∀ m, (f m).path = m.path ∧ SameMeta m (f m)) :
    Fewer st (st.setPins key f) ∧ SameRunning st (st.setPins key f) := by
  rw [setPins]
  cases hget : st.dict.get? key with
  | none => exact ⟨.refl st, .refl st⟩
  | some m =>
    refine ⟨⟨fun _ _ h => h, fun key' m' hget' => ?_, fun _ h => h⟩, rfl, rfl, fun _ h => h, rfl⟩
    change (st.dict.set key (f m)).get? key' = some m' at hget'
    rw [Dict.get?_set] at hget'
    split_ifs at hget' with heq
    · subst heq
      obtain rfl := Option.some.inj hget'
      exact ⟨m, hget, hf m⟩
    · exact ⟨m', hget', rfl, rfl, rfl⟩

theorem fewer_hit {policy : CachePolicy K} {dict : Dict K (DiskCacheMetadata Λ X)}
    (h : st.policy.updateOnHit key st.dict = some (policy, dict)) :
    Fewer st { st with policy := policy, dict := dict } := by
  have hhit := CachePolicy.hit_of_updateOnHit h
  refine ⟨fun _ _ h => h, fun key' m hget => ⟨m, ?_, rfl, rfl, rfl⟩, fun _ h => h⟩
  rw [← hhit.get? key']
  exact hget

theorem fewer_makeRoom (maxCacheSize size fuel : ℕ) (st : DiskState K Λ X E) :
    Fewer st (makeRoom maxCacheSize size fuel st).2 ∧
      SameRunning st (makeRoom maxCacheSize size fuel st).2 := by
  induction fuel generalizing st with
  | zero =>
    rw [makeRoom]
    split_ifs
    · exact ⟨.refl st, .refl st⟩
    · split <;> exact ⟨.refl st, .refl st⟩
  | succ fuel ih =>
    rw [makeRoom]
    split_ifs
    · exact ⟨.refl st, .refl st⟩
    · split
      · exact ⟨.refl st, .refl st⟩
      · exact ⟨.refl st, .refl st⟩
      · rename_i evictKey policy _
        cases st.dict.get? evictKey with
        | none => exact ⟨.refl st, .refl st⟩
        | some m =>
          have hfewer : Fewer st ({ st with
              policy := policy
              currentCacheSize := st.currentCacheSize - m.size }.evict evictKey m).1 :=
            ⟨(fewer_evict st evictKey m).files, (fewer_evict st evictKey m).dict, fun _ h => h⟩
          dsimp only
          split_ifs
          · have hrest := ih ({ st with
              policy := policy
              currentCacheSize := st.currentCacheSize - m.size }.evict evictKey m).1
            exact ⟨hfewer.trans hrest.1, hrest.2.answers, hrest.2.tasks, hrest.2.putTasks,
              hrest.2.jobs⟩
          · exact ⟨hfewer, rfl, rfl, fun _ h => h, rfl⟩

end Fewer

theorem stored_submitPutTask (h : st.Stored cfg) {memoryObj : KVObject Λ X E}
    (hplain : key ∉ st.putTasks → Plain cfg memoryObj) : (st.submitPutTask cfg key memoryObj size).Stored cfg := by
  rw [submitPutTask]
  split_ifs with hregistered
  · exact h
  · have hinserted : (st.insertPutTask key).Stored cfg :=
      h.fewer ⟨fun _ _ h => h, fun _ m h => ⟨m, h, rfl, rfl, rfl⟩, fun _ h => h⟩
        ⟨rfl, rfl, fun _ h => List.mem_append_left _ h, rfl⟩
    obtain ⟨hfewer, hsame⟩ :=
      fewer_makeRoom cfg.maxCacheSize size st.dict.items.length (st.insertPutTask key)
    cases hresult : makeRoom cfg.maxCacheSize size st.dict.items.length (st.insertPutTask key) with
    | mk result made =>
      rw [hresult] at hfewer hsame
      have hmade := hinserted.fewer hfewer hsame
      cases result with
      | full => exact hmade
      | raised => exact hmade
      | room =>
        have hgrown : Fewer made { made with
            currentCacheSize := made.currentCacheSize + size
            policy := made.policy.updateOnPut key
            tasks := made.tasks ++ [⟨key, memoryObj, size, .queued⟩]
            puts := made.puts ++ [(key, memoryObj)] } :=
          ⟨fun _ _ h => h, fun _ m h => ⟨m, h, rfl, rfl, rfl⟩, fun _ h => List.mem_append_left _ h⟩
        have hkey : key ∈ made.putTasks :=
          hsame.putTasks key (List.mem_append_right _ List.mem_cons_self)
        refine ⟨hmade.honest.mono hgrown.puts rfl, ⟨?_, ?_⟩, hgrown.entries hmade.entries, ?_,
          fun jobId job hjob => (hmade.jobs jobId job hjob).mono hgrown⟩
        · change ((made.tasks ++ [_]).map DiskPutTask.key).Nodup
          rw [List.map_append, List.nodup_append]
          refine ⟨hmade.registered.nodup, List.nodup_singleton _, ?_⟩
          rintro _ htask _ hkey' rfl
          obtain ⟨task, hmem, rfl⟩ := List.mem_map.mp htask
          obtain rfl : task.key = key := List.mem_singleton.mp hkey'
          rw [hsame.tasks] at hmem
          exact hregistered (h.registered.registered task hmem)
        · intro task htask
          rcases List.mem_append.mp htask with hold | hnew
          · exact hmade.registered.registered task hold
          · obtain rfl := List.mem_singleton.mp hnew
            exact hkey
        · intro task htask
          rcases List.mem_append.mp htask with hold | hnew
          · exact (hmade.tasks task hold).mono hgrown.files hgrown.puts
          · obtain rfl := List.mem_singleton.mp hnew
            exact ⟨List.mem_append_right _ List.mem_cons_self, hplain hregistered,
              fun hphase => absurd hphase (by simp)⟩

theorem fewer_remove (st : DiskState K Λ X E) (key : K) :
    Fewer st (st.remove key) ∧ SameRunning st (st.remove key) := by
  rw [remove]
  cases hget : st.dict.get? key with
  | none => exact ⟨.refl st, .refl st⟩
  | some m =>
    have hevict := fewer_evict st key m
    dsimp only
    cases hresult : st.evict key m with
    | mk evicted found =>
      have hfewer : Fewer st evicted := by
        rw [hresult] at hevict
        exact hevict
      have hsame : SameRunning st evicted := by
        obtain rfl : evicted = (st.evict key m).1 := by rw [hresult]
        exact ⟨rfl, rfl, fun _ h => h, rfl⟩
      cases found with
      | false => exact ⟨⟨hfewer.files, hfewer.dict, hfewer.puts⟩, hsame.1, hsame.2, hsame.3, hsame.4⟩
      | true =>
        dsimp only
        split
        · exact ⟨⟨hfewer.files, hfewer.dict, hfewer.puts⟩, hsame.1, hsame.2, hsame.3, hsame.4⟩
        · exact ⟨⟨hfewer.files, hfewer.dict, hfewer.puts⟩, hsame.1, hsame.2, hsame.3, hsame.4⟩

section Puts

structure WriteAgrees (cfg : LocalDiskConfig K Λ) (st : DiskState K Λ X E)
    (task : DiskPutTask K Λ X E) : Prop where
  entries : ∀ key m, st.dict.get? key = some m → cfg.keyToPath key = cfg.keyToPath task.key →
    PutWith cfg st key task.memoryObj.bytes m.layout m.cachedPositions
  writes : ∀ t ∈ st.tasks, t.phase = .written → cfg.keyToPath t.key = cfg.keyToPath task.key →
    PutWith cfg st t.key task.memoryObj.bytes t.memoryObj.layout t.memoryObj.cachedPositions
  reads : ∀ jobId job, st.jobs.get? jobId = some job → ∀ target ∈ job.toLoad,
    target.phase = .allocated → cfg.keyToPath target.key = cfg.keyToPath task.key →
      PutWith cfg st target.key task.memoryObj.bytes target.diskMeta.layout
        target.diskMeta.cachedPositions

def InsertAgrees (st : DiskState K Λ X E) (task : DiskPutTask K Λ X E) : Prop :=
  ∀ jobId job, st.jobs.get? jobId = some job → ∀ target ∈ job.toLoad,
    target.phase ≠ .positioned → target.key = task.key →
      target.diskMeta.cachedPositions = task.memoryObj.cachedPositions

theorem setPhase_cases {phase : PutPhase} {t : DiskPutTask K Λ X E}
    (ht : t ∈ (st.setPhase key phase).tasks) :
    ∃ t₀ ∈ st.tasks, (t₀.key = key ∧ t = { t₀ with phase := phase }) ∨ (t₀.key ≠ key ∧ t = t₀) := by
  obtain ⟨t₀, hmem, rfl⟩ := List.mem_map.mp ht
  refine ⟨t₀, hmem, ?_⟩
  split_ifs with hkey
  · exact .inl ⟨hkey, rfl⟩
  · exact .inr ⟨hkey, rfl⟩

theorem Registered.setPhase (h : st.Registered) (key : K) (phase : PutPhase) :
    (st.setPhase key phase).Registered := by
  have hkeys : (st.setPhase key phase).tasks.map DiskPutTask.key = st.tasks.map DiskPutTask.key := by
    rw [DiskState.setPhase, List.map_map]
    refine List.map_congr_left fun t _ => ?_
    rw [Function.comp_apply]
    split_ifs <;> rfl
  refine ⟨hkeys ▸ h.nodup, fun t ht => ?_⟩
  obtain ⟨t₀, hmem, ⟨_, rfl⟩ | ⟨_, rfl⟩⟩ := setPhase_cases ht
  · exact h.registered t₀ hmem
  · exact h.registered t hmem

omit [DecidableEq K] in
theorem Registered.unique (h : st.Registered) {t t' : DiskPutTask K Λ X E} (ht : t ∈ st.tasks)
    (ht' : t' ∈ st.tasks) (hkey : t.key = t'.key) : t = t' :=
  List.inj_on_of_nodup_map h.nodup ht ht' hkey

omit [DecidableEq K] in
theorem fileHolds_written {cachedPositions : X} {layout : Λ} {bytes : List ℕ}
    (hput : cfg.keyToPath key = cfg.keyToPath task.key → PutWith cfg st key bytes layout cachedPositions)
    (hfile : FileHolds cfg st key layout cachedPositions) :
    FileHolds cfg (st.setFile (cfg.keyToPath task.key) (some bytes)) key layout cachedPositions := by
  intro content hcontent
  change (if cfg.keyToPath key = cfg.keyToPath task.key then some bytes
    else st.files (cfg.keyToPath key)) = some content at hcontent
  split_ifs at hcontent with hpath
  · obtain rfl := Option.some.inj hcontent
    exact hput hpath
  · exact hfile content hcontent

theorem stored_writeFile (h : st.Stored cfg) (key : K)
    (hagrees : ∀ task, st.taskOf key .queued = some task → WriteAgrees cfg st task) :
    (st.writeFile cfg key).Stored cfg := by
  rw [writeFile]
  cases htask : st.taskOf key .queued with
  | none => exact h
  | some task =>
    obtain ⟨hmem, rfl, hqueued⟩ := taskOf_some htask
    have hagree := hagrees task htask
    have hholds := h.tasks task hmem
    have hregistered := h.registered.setPhase task.key .written
    refine ⟨⟨h.honest.returned, h.honest.raised⟩, ⟨hregistered.nodup, hregistered.registered⟩,
      fun key m hget => ?_, fun t ht => ?_, fun jobId job hjob => ⟨fun target htarget => ?_,
        (h.jobs jobId job hjob).loaded⟩⟩
    · have hentry := h.entries key m hget
      exact ⟨hentry.path, fileHolds_written (hagree.entries key m hget) hentry.file⟩
    · obtain ⟨t₀, hmem₀, ⟨hkey, rfl⟩ | ⟨hkey, rfl⟩⟩ := setPhase_cases ht
      · obtain rfl := h.registered.unique hmem₀ hmem hkey
        refine ⟨hholds.put, hholds.plain, fun _ content hcontent => ?_⟩
        change (if cfg.keyToPath t₀.key = cfg.keyToPath t₀.key then some t₀.memoryObj.bytes
          else st.files (cfg.keyToPath t₀.key)) = some content at hcontent
        rw [if_pos rfl] at hcontent
        obtain rfl := Option.some.inj hcontent
        exact ⟨t₀.memoryObj, hholds.put, hholds.plain, rfl, rfl, rfl⟩
      · have hother := h.tasks t hmem₀
        exact ⟨hother.put, hother.plain, fun hphase => fileHolds_written
          (hagree.writes t hmem₀ hphase) (hother.file hphase)⟩
    · have htarget' := (h.jobs jobId job hjob).targets target htarget
      refine ⟨fun hphase => ?_, htarget'.read, htarget'.agrees, htarget'.positioned⟩
      obtain ⟨hentry, hmemory⟩ := htarget'.allocated hphase
      exact ⟨⟨hentry.path, fileHolds_written (hagree.reads jobId job hjob target htarget hphase)
        hentry.file⟩, hmemory⟩

theorem TaskHolds.setPhase_entered (h : ∀ t ∈ st.tasks, TaskHolds cfg st t) (key : K)
    (t : DiskPutTask K Λ X E) (ht : t ∈ (st.setPhase key .entered).tasks) : TaskHolds cfg st t := by
  obtain ⟨t₀, hmem, ⟨_, rfl⟩ | ⟨_, rfl⟩⟩ := setPhase_cases ht
  · exact ⟨(h t₀ hmem).put, (h t₀ hmem).plain, fun hphase => absurd hphase (by simp)⟩
  · exact h t hmem

theorem Registered.dropTask (h : st.Registered) (key : K) : (st.dropTask key).Registered where
  nodup := h.nodup.sublist (List.filter_sublist.map _)
  registered task htask := h.registered task (List.mem_of_mem_filter htask)

theorem stored_insertKey (h : st.Stored cfg) (key : K)
    (hagrees : ∀ task, st.taskOf key .written = some task → st.dict.contains key = false →
      InsertAgrees st task) : (st.insertKey cfg key).Stored cfg := by
  rw [insertKey]
  cases htask : st.taskOf key .written with
  | none => exact h
  | some task =>
    obtain ⟨hmem, rfl, hwritten⟩ := taskOf_some htask
    have hregistered := h.registered.setPhase task.key .entered
    dsimp only
    split_ifs with hstored
    · cases hupdate : st.policy.updateOnHit task.key st.dict with
      | none =>
        exact h.retask ⟨fun _ _ h => h, fun _ m h => ⟨m, h, rfl, rfl, rfl⟩, fun _ h => h⟩ rfl rfl
          (h.registered.dropTask task.key) fun t ht => h.tasks t (List.mem_of_mem_filter ht)
      | some updated =>
        obtain ⟨policy, dict⟩ := updated
        have hfewer := fewer_hit hupdate
        exact h.retask ⟨hfewer.files, hfewer.dict, hfewer.puts⟩ rfl rfl
          ⟨hregistered.nodup, hregistered.registered⟩ (TaskHolds.setPhase_entered h.tasks task.key)
    · have hfile := (h.tasks task hmem).file hwritten
      refine ⟨⟨h.honest.returned, h.honest.raised⟩, ⟨hregistered.nodup, hregistered.registered⟩,
        fun key m hget => ?_, fun t ht => ?_,
        fun jobId job hjob => ⟨fun target htarget => ?_, (h.jobs jobId job hjob).loaded⟩⟩
      · change (st.dict.set task.key _).get? key = some m at hget
        rw [Dict.get?_set] at hget
        split_ifs at hget with hkey
        · subst hkey
          obtain rfl := Option.some.inj hget
          exact ⟨rfl, hfile⟩
        · refine EntryHolds.mono ?_ ?_ (h.entries key m hget)
          exacts [fun _ _ h => h, fun _ h => h]
      · refine TaskHolds.mono ?_ ?_ (TaskHolds.setPhase_entered h.tasks task.key t ht)
        exacts [fun _ _ h => h, fun _ h => h]
      · have htarget' := (h.jobs jobId job hjob).targets target htarget
        refine ⟨fun hphase => ⟨EntryHolds.mono ?_ ?_ (htarget'.allocated hphase).1,
          (htarget'.allocated hphase).2⟩, htarget'.read, fun hphase m hget => ?_, htarget'.positioned⟩
        · exact fun _ _ h => h
        · exact fun _ h => h
        change (st.dict.set task.key _).get? target.key = some m at hget
        rw [Dict.get?_set] at hget
        split_ifs at hget with hkey
        · obtain rfl := Option.some.inj hget
          exact (hagrees task htask (by simpa using hstored) jobId job hjob target htarget hphase
            hkey.symm).symm
        · exact htarget'.agrees hphase m hget

theorem stored_removePutTask (h : st.Stored cfg) (key : K) : (st.removePutTask key).Stored cfg := by
  rw [removePutTask]
  cases htask : st.taskOf key .entered with
  | none => exact h
  | some task =>
    refine h.retask ⟨fun _ _ h => h, fun _ m h => ⟨m, h, rfl, rfl, rfl⟩, fun _ h => h⟩ rfl rfl
      ⟨(h.registered.dropTask key).nodup, ?_⟩ fun t ht => h.tasks t (List.mem_of_mem_filter ht)
    intro t ht
    obtain ⟨hmem, hkey⟩ := List.mem_filter.mp ht
    exact (List.mem_erase_of_ne (by simpa using hkey)).mpr (h.registered.registered t hmem)

end Puts

end DiskState

end LMCache
