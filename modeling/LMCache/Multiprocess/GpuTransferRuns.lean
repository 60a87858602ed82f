import LMCache.Multiprocess.TransferSections

namespace LMCache

open List TransferOp Execution Bool GpuBuffers TransferCall

variable {K V Q S : Type} {chunkSize blockSize : ℕ}

theorem TransferOp.isFinish_spec {op : TransferOp K chunkSize} (h : op.isFinish = true) :
    op.continues = false ∧ op.isStoreCopy = false ∧ op.isRetrieveCopy = false := by
  cases op <;> first | exact ⟨rfl, rfl, rfl⟩ | cases h

theorem TransferOp.isRetrieveCopy_of_isLoad {op : TransferOp K chunkSize}
    (h : op.isLoad = true) : op.isRetrieveCopy = true := by
  cases op <;> first | rfl | cases h

def TransferOp.On (op : TransferOp K chunkSize) (stream : TransferStream) : Prop :=
  (op.isStoreCopy = true → stream = .cuda) ∧ (op.isRetrieveCopy = true → stream = .highPriority)

theorem TransferOp.on_of_isFinish {op : TransferOp K chunkSize} (h : op.isFinish = true)
    (stream : TransferStream) : op.On stream := by
  obtain ⟨_, hstore, hretrieve⟩ := isFinish_spec h
  exact ⟨fun hcopy => absurd hcopy (eq_false_iff.mp hstore),
    fun hcopy => absurd hcopy (eq_false_iff.mp hretrieve)⟩

namespace TransferCall

structure Sound (codec : BaseCodec V Q S) [DecidableEq K] (task : ℕ)
    (call : TransferCall K chunkSize) : Prop where
  isSection : GpuBuffers.IsSection codec call.ops
  task : ∀ op ∈ call.ops, op.task = task
  on : ∀ op ∈ call.ops, op.On call.stream
  finish : ∀ op ∈ call.ops, op.isFinish = false

variable [DecidableEq K] {codec : BaseCodec V Q S}

theorem sound_event (task : ℕ) (stream : TransferStream) :
    Sound codec task (launch stream (.event task) : TransferCall K chunkSize) where
  isSection := isSection_singleton rfl
  task := fun _ hop => by rw [mem_singleton.mp hop]; rfl
  on := fun _ hop => by
    rw [mem_singleton.mp hop]
    exact ⟨fun h => (by cases h), fun h => (by cases h)⟩
  finish := fun _ hop => by rw [mem_singleton.mp hop]; rfl

variable (c : ChunkTransfer K chunkSize)

theorem sound_storeChunk : Sound codec c.task (storeChunk c) := by
  have hops : ∀ op ∈ (storeChunk c).ops,
      op.task = c.task ∧ op.isRetrieveCopy = false ∧ op.isFinish = false := by
    intro op hop
    cases hbase : c.isBase <;> simp [storeChunk, hbase] at hop
    · rcases hop with rfl | rfl <;> exact ⟨rfl, rfl, rfl⟩
    · rcases hop with rfl | rfl | rfl | rfl | rfl <;> exact ⟨rfl, rfl, rfl⟩
  exact ⟨isSection_storeChunk, fun op hop => (hops op hop).1,
    fun op hop => ⟨fun _ => rfl, fun h => absurd h (eq_false_iff.mp (hops op hop).2.1)⟩,
    fun op hop => (hops op hop).2.2⟩

theorem sound_retrieveChunk : Sound codec c.task (retrieveChunk c) := by
  have hops : ∀ op ∈ (retrieveChunk c).ops,
      op.task = c.task ∧ op.isStoreCopy = false ∧ op.isFinish = false := by
    intro op hop
    cases hbase : c.isBase <;> simp [retrieveChunk, hbase] at hop
    · rcases hop with rfl | rfl <;> exact ⟨rfl, rfl, rfl⟩
    · rcases hop with rfl | rfl | rfl | rfl <;> exact ⟨rfl, rfl, rfl⟩
  exact ⟨isSection_retrieveChunk, fun op hop => (hops op hop).1,
    fun op hop => ⟨fun h => absurd h (eq_false_iff.mp (hops op hop).2.1), fun _ => rfl⟩,
    fun op hop => (hops op hop).2.2⟩

end TransferCall

namespace TransferHandler

structure WellFormed (codec : BaseCodec V Q S) [DecidableEq K] (task : ℕ)
    (handler : TransferHandler K chunkSize) : Prop where
  program : ∃ body finish, handler.program = body ++ finish ∧
    (∀ call ∈ body, call.Sound codec task) ∧
    (finish = [] ∨ ∃ op, op.isFinish = true ∧ op.task = task ∧ finish = [.launch .cuda op])
  onRaise : ∀ call ∈ handler.onRaise, call.Sound codec task

variable [DecidableEq K] {codec : BaseCodec V Q S} {task : ℕ} {op : TransferOp K chunkSize}

theorem WellFormed.of_body {handler : TransferHandler K chunkSize}
    {body : List (TransferCall K chunkSize)}
    (hprogram : handler.program = body ++ [.launch .cuda op])
    (hbody : ∀ call ∈ body, call.Sound codec task) (hop : op.isFinish = true)
    (htask : op.task = task) (hraise : ∀ call ∈ handler.onRaise, call.Sound codec task) :
    handler.WellFormed codec task :=
  ⟨⟨body, _, hprogram, hbody, .inr ⟨op, hop, htask, rfl⟩⟩, hraise⟩

theorem wellFormed_store (task : ℕ) (args : TransferArgs K chunkSize blockSize)
    (reserved : List K) : (store task args reserved).WellFormed codec task := by
  have hprogram : (store task args reserved).program =
      (.launch .cuda (.event task) :: (((finRange args.objKeys.length).map
        (args.chunk task 0)).filter (fun c => c.object ∈ reserved)).map .storeChunk ++
          [.launch .cuda (.event task)]) ++ [.launch .cuda (.finishWrite task reserved)] := by
    rw [store, append_assoc]
    rfl
  refine .of_body hprogram (fun call hcall => ?_) rfl rfl fun _ h => absurd h not_mem_nil
  rw [mem_append, mem_cons, mem_singleton] at hcall
  rcases hcall with (rfl | hcall) | rfl
  · exact sound_event task .cuda
  · obtain ⟨c, hc, rfl⟩ := mem_map.mp hcall
    obtain ⟨idx, _, rfl⟩ := mem_map.mp (mem_filter.mp hc).1
    exact sound_storeChunk (args.chunk task 0 idx)
  · exact sound_event task .cuda

omit [DecidableEq K] in
theorem task_of_mem_retrieveChunks {args : TransferArgs K chunkSize blockSize} {skip : ℕ}
    {c : ChunkTransfer K chunkSize} (h : c ∈ retrieveChunks task args skip) : c.task = task := by
  obtain ⟨idx, _, hc⟩ := mem_filterMap.mp h
  dsimp only at hc
  split_ifs at hc
  obtain rfl := Option.some.inj hc
  rfl

theorem wellFormed_retrieve (task : ℕ) (args : TransferArgs K chunkSize blockSize) (skip : ℕ)
    (found : Bool) : (retrieve task args skip found).WellFormed codec task := by
  have hevent : ∀ call ∈ [launch .highPriority (.event task)],
      TransferCall.Sound codec task (call : TransferCall K chunkSize) := by
    intro call hcall
    rw [mem_singleton.mp hcall]
    exact sound_event task .highPriority
  cases found with
  | false => exact ⟨⟨_, [], (append_nil _).symm, hevent, .inl rfl⟩, hevent⟩
  | true =>
    have hprogram : (retrieve task args skip true).program =
        ((retrieveChunks task args skip).map .retrieveChunk ++
          [.launch .highPriority (.event task)]) ++
            [.launch .cuda (.finishReadPrefetched task args.objKeys)] := by
      rw [retrieve, append_assoc]
      rfl
    refine .of_body hprogram (fun call hcall => ?_) rfl rfl hevent
    rcases mem_append.mp hcall with hchunk | hlast
    · obtain ⟨c, hc, rfl⟩ := mem_map.mp hchunk
      exact task_of_mem_retrieveChunks hc ▸ sound_retrieveChunk c
    · exact hevent call hlast

variable {handler : TransferHandler K chunkSize}

theorem WellFormed.raised (h : handler.WellFormed codec task) :
    WellFormed codec task ⟨handler.onRaise, [], 0⟩ :=
  ⟨⟨handler.onRaise, [], (append_nil _).symm, h.onRaise, .inl rfl⟩, fun _ h => absurd h not_mem_nil⟩

theorem WellFormed.moved (h : handler.WellFormed codec task) (position : ℕ) :
    WellFormed codec task { handler with position } := ⟨h.program, h.onRaise⟩

theorem WellFormed.call_cases (h : handler.WellFormed codec task)
    {call : TransferCall K chunkSize} (hcall : handler.program[handler.position]? = some call) :
    call.Sound codec task ∨
      handler.program = handler.program.take handler.position ++ [call] ∧
        (∀ before ∈ handler.program.take handler.position, before.Sound codec task) ∧
        ∃ op, op.isFinish = true ∧ op.task = task ∧ call = .launch .cuda op := by
  obtain ⟨body, finish, hprogram, hbody, hfinish⟩ := h.program
  rw [hprogram] at hcall ⊢
  by_cases hlt : handler.position < body.length
  · rw [getElem?_append_left hlt] at hcall
    exact .inl (hbody call (mem_of_getElem? hcall))
  · rw [getElem?_append_right (Nat.le_of_not_lt hlt)] at hcall
    rcases hfinish with rfl | ⟨op, hop, htask, rfl⟩
    · simp at hcall
    · obtain ⟨hzero, hcall⟩ := List.getElem?_eq_some_iff.mp hcall
      rw [length_singleton] at hzero
      have hposition : handler.position = body.length := by omega
      rw [hposition, take_left]
      rw [getElem_singleton] at hcall
      exact .inr ⟨by rw [hcall], hbody, op, hop, htask, hcall.symm⟩

theorem WellFormed.mem_sound (h : handler.WellFormed codec task) {call : TransferCall K chunkSize}
    (hcall : call ∈ handler.program) (hop : op ∈ call.ops) :
    op.isFinish = true ∨ call.Sound codec task := by
  obtain ⟨body, finish, hprogram, hbody, hfinish⟩ := h.program
  rw [hprogram, mem_append] at hcall
  rcases hcall with hcall | hcall
  · exact .inr (hbody call hcall)
  · rcases hfinish with rfl | ⟨last, hlast, _, rfl⟩
    · exact absurd hcall not_mem_nil
    · rw [mem_singleton.mp hcall] at hop
      exact .inl (mem_singleton.mp hop ▸ hlast)

end TransferHandler

namespace GpuTransferRun

def HasRun (run : GpuTransferRun K V Q S chunkSize) (kind : TransferOp K chunkSize → Bool)
    (task : ℕ) : Prop :=
  ∃ handler, run.handlers task = some handler ∧
    ∀ call ∈ handler.program, ∀ op ∈ call.ops, kind op = true → op ∈ run.ran

def Transferred (codec : BaseCodec V Q S) (run run' : GpuTransferRun K V Q S chunkSize) :
    TransferOp K chunkSize → Prop
  | .memcpyD2H c => (run.buffers.own c.id).gathered = some (run'.buffers.tensors c.object)
  | .copyQuantized c =>
      (run.buffers.own c.id).gathered.map (fun tensor => (codec.encodeTensor tensor).1) =
        some (run'.buffers.quantized c.object)
  | .copyScale c =>
      (run.buffers.own c.id).gathered.map (fun tensor => (codec.encodeTensor tensor).2) =
        some (run'.buffers.scales c.object)
  | .scatter c =>
      ∃ bytes, (run.buffers.own c.id).bytes codec c.isBase = some bytes ∧
        run'.buffers.pagedKv =
          Cells.write run.buffers.pagedKv ((c.slotMapping.zip bytes).drop c.skip)
  | .finishWrite task _ => run.HasRun isStoreCopy task
  | .finishReadPrefetched task _ => run.HasRun isLoad task
  | _ => True

def bufferInUse : List (TransferOp K chunkSize) → Bool
  | [] => false
  | op :: _ => op.needsBuffer

variable [DecidableEq K]

def Kept (codec : BaseCodec V Q S) (run : GpuTransferRun K V Q S chunkSize) :
    GpuTransferEvent K V Q S chunkSize blockSize → Prop
  | .run stream =>
      ∀ op ∈ (run.queues stream).head?, run.Transferred codec (run.runHead codec stream) op
  | _ => True

omit [DecidableEq K] in
def Timely (run : GpuTransferRun K V Q S chunkSize) :
    GpuTransferEvent K V Q S chunkSize blockSize → Prop
  | .run stream =>
      ∀ op ∈ (run.queues stream).head?,
        (op.writesBuffer = true → bufferInUse (run.queues stream.other) = false) ∧
          (op.isFinishRead = true →
            ∀ load ∈ run.queues .highPriority, load.isLoad = true → load.task ≠ op.task)
  | _ => True

structure Served (codec : BaseCodec V Q S) (run : GpuTransferRun K V Q S chunkSize) (task : ℕ)
    (handler : TransferHandler K chunkSize) : Prop where
  wellFormed : handler.WellFormed codec task
  issued : ∀ call ∈ handler.program.take handler.position, ∀ op ∈ call.ops,
    op ∈ run.ran ∨ op ∈ run.queues call.stream

def Awaits (handlers : ℕ → Option (TransferHandler K chunkSize))
    (op copy : TransferOp K chunkSize) : Prop :=
  op.isFinish = true ∧ copy.isStoreCopy = true ∧
    ∃ handler, handlers op.task = some handler ∧ ∃ call ∈ handler.program, copy ∈ call.ops

structure Ordered (codec : BaseCodec V Q S) (run : GpuTransferRun K V Q S chunkSize) : Prop where
  served : ∀ task handler, run.handlers task = some handler → run.Served codec task handler
  finished : ∀ op ∈ run.queues .cuda, op.isFinish = true →
    ∃ handler, run.handlers op.task = some handler ∧ handler.program.length ≤ handler.position
  highPriority : ∀ op ∈ run.queues .highPriority, op.isFinish = false
  on : ∀ stream, ∀ op ∈ run.queues stream, op.On stream
  backed : Streams.Backed (Awaits run.handlers) run.ran (run.queues .cuda)

def Primed (codec : BaseCodec V Q S) (run : GpuTransferRun K V Q S chunkSize) : Prop :=
  (discipline K chunkSize codec).Primed run.queues run.buffers

instance decidableTimely (run : GpuTransferRun K V Q S chunkSize) :
    ∀ ev : GpuTransferEvent K V Q S chunkSize blockSize, Decidable (run.Timely ev)
  | .run stream =>
      inferInstanceAs (Decidable (∀ op ∈ (run.queues stream).head?,
        (op.writesBuffer = true → bufferInUse (run.queues stream.other) = false) ∧
          (op.isFinishRead = true →
            ∀ load ∈ run.queues .highPriority, load.isLoad = true → load.task ≠ op.task)))
  | .store _ _ _ | .retrieve _ _ _ _ | .call _ | .raises _ _ | .synchronized _ | .writeKv _ _
  | .writeObject _ _ _ _ => .isTrue trivial

variable {codec : BaseCodec V Q S} {run run' : GpuTransferRun K V Q S chunkSize} {task : ℕ}
  {handler handler' : TransferHandler K chunkSize} {call : TransferCall K chunkSize}

theorem Served.mono (h : run.Served codec task handler)
    (hops : ∀ op stream, op ∈ run.ran ∨ op ∈ run.queues stream →
      op ∈ run'.ran ∨ op ∈ run'.queues stream) : run'.Served codec task handler :=
  ⟨h.wellFormed, fun call hcall op hop => hops op call.stream (h.issued call hcall op hop)⟩

theorem ordered_init (buffers : GpuBuffers K V Q S) :
    Ordered codec (init buffers : GpuTransferRun K V Q S chunkSize) where
  served := fun _ _ h => nomatch h
  finished := fun _ h => absurd h not_mem_nil
  highPriority := fun _ h => absurd h not_mem_nil
  on := fun _ _ h => absurd h not_mem_nil
  backed := Streams.backed_nil

variable {stream other : TransferStream}
  {op : TransferOp K chunkSize} {ops : List (TransferOp K chunkSize)}

omit [DecidableEq K] in
theorem mem_push :
    op ∈ (run.push stream ops).queues other ↔
      op ∈ run.queues other ∨ other = stream ∧ op ∈ ops := by
  change op ∈ Function.update run.queues stream (run.queues stream ++ ops) other ↔ _
  by_cases heq : other = stream
  · rw [heq, Function.update_self, mem_append]
    simp
  · rw [Function.update_of_ne heq]
    simp [heq]

omit [DecidableEq K] in
theorem nextCall_eq_some (h : run.nextCall task = some (handler, call)) :
    run.handlers task = some handler ∧ handler.program[handler.position]? = some call := by
  rw [nextCall] at h
  obtain ⟨found, hfound, h⟩ := Option.bind_eq_some_iff.mp h
  obtain ⟨next, hnext, h⟩ := Option.bind_eq_some_iff.mp h
  split_ifs at h
  obtain ⟨rfl, rfl⟩ := Prod.mk.inj (Option.some.inj h)
  exact ⟨hfound, hnext⟩

theorem Ordered.task_ne (h : run.Ordered codec) (hhandler : run.handlers task = some handler)
    (hcall : handler.program[handler.position]? = some call) (hop : op ∈ run.queues .cuda)
    (hfinish : op.isFinish = true) : op.task ≠ task := by
  rintro rfl
  obtain ⟨found, hfound, hle⟩ := h.finished op hop hfinish
  obtain rfl := Option.some.inj (hhandler.symm.trans hfound)
  obtain ⟨hlt, _⟩ := List.getElem?_eq_some_iff.mp hcall
  exact absurd hlt (Nat.not_lt_of_le hle)

omit [DecidableEq K] in
theorem awaits_update {op copy : TransferOp K chunkSize} (hne : op.task ≠ task)
    (h : Awaits (Function.update run.handlers task (some handler)) op copy) :
    Awaits run.handlers op copy := by
  obtain ⟨hop, hcopy, found, hfound, hmem⟩ := h
  rw [Function.update_of_ne hne] at hfound
  exact ⟨hop, hcopy, found, hfound, hmem⟩

theorem Ordered.enqueue (h : run.Ordered codec) (hhandler : run.handlers task = some handler)
    (hcall : handler.program[handler.position]? = some call)
    (hserved : Served codec ((run.push call.stream ops).setHandler task handler') task handler')
    (hon : ∀ op ∈ ops, op.On call.stream)
    (hfinish : ∀ op ∈ ops, op.isFinish = true → call.stream = .cuda ∧ op.task = task ∧
      handler'.program.length ≤ handler'.position)
    (hawaits : ∀ op ∈ ops, op.isFinish = true → ∀ before ∈ handler'.program,
      ∀ copy ∈ before.ops, copy.isStoreCopy = true → copy ∈ run.ran ∨ copy ∈ run.queues .cuda) :
    Ordered codec ((run.push call.stream ops).setHandler task handler') where
  served := by
    intro other found hfound
    rcases Cells.update_eq_some hfound with ⟨rfl, rfl⟩ | ⟨_, hold⟩
    · exact hserved
    · refine (h.served other found hold).mono ?_
      exact fun op stream hop => hop.imp_right fun hop => mem_push.mpr (.inl hop)
  finished := by
    intro op hop hisFinish
    rcases mem_push.mp hop with hold | ⟨_, hnew⟩
    · obtain ⟨found, hfound, hle⟩ := h.finished op hold hisFinish
      have hne := h.task_ne hhandler hcall hold hisFinish
      exact ⟨found, (Function.update_of_ne hne ..).trans hfound, hle⟩
    · obtain ⟨_, rfl, hle⟩ := hfinish op hnew hisFinish
      exact ⟨handler', Function.update_self .., hle⟩
  highPriority := by
    intro op hop
    rcases mem_push.mp hop with hold | ⟨hstream, hnew⟩
    · exact h.highPriority op hold
    · refine eq_false_iff.mpr fun hisFinish => ?_
      exact absurd (hstream.trans (hfinish op hnew hisFinish).1) (by decide)
  on := by
    intro stream op hop
    rcases mem_push.mp hop with hold | ⟨rfl, hnew⟩
    · exact h.on stream op hold
    · exact hon op hnew
  backed := by
    have hold : Streams.Backed (Awaits (Function.update run.handlers task (some handler')))
        run.ran (run.queues .cuda) :=
      h.backed.mono fun op hop copy hawait =>
        awaits_update (h.task_ne hhandler hcall hop hawait.1) hawait
    change Streams.Backed (Awaits (Function.update run.handlers task (some handler'))) run.ran
      (Function.update run.queues call.stream (run.queues call.stream ++ ops) .cuda)
    by_cases hstream : TransferStream.cuda = call.stream
    · rw [← hstream, Function.update_self]
      refine hold.push fun op hop copy hawait => ?_
      obtain ⟨hisFinish, hcopy, found, hfound, before, hbefore, hmem⟩ := hawait
      rw [(hfinish op hop hisFinish).2.1, Function.update_self] at hfound
      obtain rfl := Option.some.inj hfound
      exact hawaits op hop hisFinish before hbefore copy hmem hcopy
    · rwa [Function.update_of_ne hstream]

theorem Ordered.lock (h : run.Ordered codec) (lock : Option ℕ) : Ordered codec { run with lock } :=
  ⟨fun task handler hhandler => (h.served task handler hhandler).mono fun _ _ => id,
    h.finished, h.highPriority, h.on, h.backed⟩

theorem Served.issued_snoc (h : run.Served codec task handler)
    (hcall : handler.program[handler.position]? = some call) :
    Served codec ((run.push call.stream call.ops).setHandler task
      { handler with position := handler.position + 1 }) task
        { handler with position := handler.position + 1 } := by
  refine ⟨h.wellFormed.moved _, fun before hbefore op hop => ?_⟩
  obtain ⟨hlt, hget⟩ := List.getElem?_eq_some_iff.mp hcall
  rw [take_add_one, hcall, Option.toList_some, mem_append, mem_singleton] at hbefore
  rcases hbefore with hbefore | rfl
  · exact (h.issued before hbefore op hop).imp_right fun hop => mem_push.mpr (.inl hop)
  · exact .inr (mem_push.mpr (.inr ⟨rfl, hop⟩))

theorem Ordered.next (h : run.Ordered codec) (task : ℕ) : (run.call task).Ordered codec := by
  rw [GpuTransferRun.call]
  cases hnext : run.nextCall task with
  | none => exact h
  | some next =>
    obtain ⟨handler, call⟩ := next
    obtain ⟨hhandler, hcall⟩ := nextCall_eq_some hnext
    have hserved := h.served task handler hhandler
    refine Ordered.lock ?_ _
    rcases hserved.wellFormed.call_cases hcall with hsound | ⟨hprogram, hbefore, op, hop, rfl, rfl⟩
    · refine h.enqueue hhandler hcall (hserved.issued_snoc hcall) hsound.on ?_ ?_
      · exact fun op hop hisFinish => absurd hisFinish (eq_false_iff.mp (hsound.finish op hop))
      · exact fun op hop hisFinish => absurd hisFinish (eq_false_iff.mp (hsound.finish op hop))
    · have hon : ∀ last ∈ [op], last.On .cuda := by
        intro last hlast
        rw [mem_singleton.mp hlast]
        exact on_of_isFinish hop .cuda
      refine h.enqueue hhandler hcall (hserved.issued_snoc hcall) hon (fun last hlast _ => ?_)
        fun _ _ _ before hmem copy hcopy hkind => ?_
      · obtain rfl := mem_singleton.mp hlast
        refine ⟨rfl, rfl, ?_⟩
        have hlength := congrArg length hprogram
        rw [length_append, length_singleton, length_take] at hlength
        change handler.program.length ≤ handler.position + 1
        omega
      · change before ∈ handler.program at hmem
        rw [hprogram, mem_append, mem_singleton] at hmem
        rcases hmem with hmem | rfl
        · have hissued := hserved.issued before hmem copy hcopy
          rwa [((hbefore before hmem).on copy hcopy).1 hkind] at hissued
        · obtain rfl := mem_singleton.mp hcopy
          exact absurd hkind (eq_false_iff.mp (isFinish_spec hop).2.1)

theorem Ordered.raise (h : run.Ordered codec) (task n : ℕ) : (run.raises task n).Ordered codec := by
  rw [GpuTransferRun.raises]
  cases hnext : run.nextCall task with
  | none => exact h
  | some next =>
    obtain ⟨handler, call⟩ := next
    obtain ⟨hhandler, hcall⟩ := nextCall_eq_some hnext
    have hserved := h.served task handler hhandler
    have hissued : ∀ ops, Served codec ((run.push call.stream ops).setHandler task
        ⟨handler.onRaise, [], 0⟩) task ⟨handler.onRaise, [], 0⟩ := fun ops =>
      ⟨hserved.wellFormed.raised, fun _ hbefore => absurd hbefore not_mem_nil⟩
    rcases hserved.wellFormed.call_cases hcall with hsound | ⟨_, _, op, _, _, rfl⟩
    · have hops : ∀ op ∈ (if call.underLock then call.ops.take n else []), op ∈ call.ops := by
        intro op hop
        split_ifs at hop
        · exact mem_of_mem_take hop
        · exact absurd hop not_mem_nil
      refine h.enqueue hhandler hcall (hissued _) (fun op hop => hsound.on op (hops op hop)) ?_ ?_
      · exact fun op hop hisFinish =>
          absurd hisFinish (eq_false_iff.mp (hsound.finish op (hops op hop)))
      · exact fun op hop hisFinish =>
          absurd hisFinish (eq_false_iff.mp (hsound.finish op (hops op hop)))
    · exact h.enqueue hhandler hcall (hissued _) (fun _ hop => absurd hop not_mem_nil)
        (fun _ hop => absurd hop not_mem_nil) fun _ hop => absurd hop not_mem_nil

theorem Ordered.start (h : run.Ordered codec) (hhandler : handler.WellFormed codec task)
    (hposition : handler.position = 0) : (run.start task handler).Ordered codec := by
  rw [GpuTransferRun.start]
  split_ifs with hnone
  · have hne : ∀ op ∈ run.queues .cuda, op.isFinish = true → op.task ≠ task := by
      rintro op hop hfinish rfl
      obtain ⟨found, hfound, _⟩ := h.finished op hop hfinish
      cases hnone.symm.trans hfound
    refine ⟨fun other found hfound => ?_, fun op hop hfinish => ?_, h.highPriority,
      h.on, h.backed.mono fun op hop copy hawait => awaits_update (hne op hop hawait.1) hawait⟩
    · rcases Cells.update_eq_some hfound with ⟨rfl, rfl⟩ | ⟨_, hold⟩
      · refine ⟨hhandler, fun before hbefore => ?_⟩
        rw [hposition] at hbefore
        exact absurd hbefore not_mem_nil
      · exact (h.served other found hold).mono fun _ _ => id
    · obtain ⟨found, hfound, hle⟩ := h.finished op hop hfinish
      exact ⟨found, (Function.update_of_ne (hne op hop hfinish) ..).trans hfound, hle⟩
  · exact h

theorem Ordered.synchronize (h : run.Ordered codec) (task : ℕ) :
    (run.synchronized task).Ordered codec := by
  rw [GpuTransferRun.synchronized]
  split_ifs
  · exact h.lock none
  · exact h

theorem Ordered.write (h : run.Ordered codec) (buffers : GpuBuffers K V Q S) :
    Ordered codec { run with buffers } :=
  ⟨fun task handler hhandler => (h.served task handler hhandler).mono fun _ _ => id,
    h.finished, h.highPriority, h.on, h.backed⟩

variable {rest : List (TransferOp K chunkSize)}

theorem runHead_cons {stream : TransferStream} (h : run.queues stream = op :: rest) :
    run.runHead codec stream =
      { run with
        queues := Function.update run.queues stream rest
        buffers := run.buffers.exec codec op
        ran := run.ran ++ [op] } := by
  rw [runHead, h]

omit [DecidableEq K] in
theorem mem_runHead {op other' : TransferOp K chunkSize} (h : run.queues stream = op :: rest)
    (hop : other' ∈ run.ran ∨ other' ∈ run.queues other) :
    other' ∈ run.ran ++ [op] ∨ other' ∈ Function.update run.queues stream rest other := by
  rcases hop with hran | hqueue
  · exact .inl (mem_append_left _ hran)
  · by_cases heq : other = stream
    · rw [heq, h, mem_cons] at hqueue
      rw [heq, Function.update_self]
      rcases hqueue with rfl | hrest
      · exact .inl (mem_append_right _ mem_cons_self)
      · exact .inr hrest
    · rw [Function.update_of_ne heq]
      exact .inr hqueue

omit [DecidableEq K] in
theorem mem_of_mem_rest {op other' : TransferOp K chunkSize} (h : run.queues stream = op :: rest)
    (hop : other' ∈ Function.update run.queues stream rest other) : other' ∈ run.queues other := by
  by_cases heq : other = stream
  · rw [heq, Function.update_self] at hop
    rw [heq, h]
    exact mem_cons_of_mem op hop
  · rwa [Function.update_of_ne heq] at hop

theorem Ordered.undisturbed (h : run.Ordered codec) {stream : TransferStream}
    (hqueue : run.queues stream = op :: rest)
    (htimely : op.writesBuffer = true → bufferInUse (run.queues stream.other) = false) :
    (discipline K chunkSize codec).Undisturbed run.queues stream op := by
  intro other hne next hnext _
  rw [← TransferStream.eq_other hne] at htimely
  obtain ⟨tail, hother⟩ := head?_eq_some_iff.mp hnext
  have hop := h.on stream op (hqueue ▸ mem_cons_self)
  have hon := h.on other next (hother ▸ mem_cons_self)
  rw [hother] at htimely
  refine ⟨fun hneeds => ?_, fun hstore => ?_, fun hretrieve => ?_⟩
  · refine eq_false_iff.mpr fun hwrites => ?_
    exact eq_false_iff.mp (htimely hwrites) hneeds
  · exact eq_false_iff.mpr fun hcopy => hne ((hon.1 hstore).trans (hop.1 hcopy).symm)
  · exact eq_false_iff.mpr fun hcopy => hne ((hon.2 hretrieve).trans (hop.2 hcopy).symm)

theorem Ordered.pop (h : run.Ordered codec) {stream : TransferStream}
    (hqueue : run.queues stream = op :: rest) : (run.runHead codec stream).Ordered codec := by
  rw [runHead_cons hqueue]
  refine ⟨fun task handler hhandler => ?_,
    fun other hother hfinish => h.finished other (mem_of_mem_rest hqueue hother) hfinish,
    fun other hother => h.highPriority other (mem_of_mem_rest hqueue hother),
    fun stream other hother => h.on stream other (mem_of_mem_rest hqueue hother), ?_⟩
  · exact (h.served task handler hhandler).mono fun other stream hop => mem_runHead hqueue hop
  · change Streams.Backed (Awaits run.handlers) (run.ran ++ [op])
      (Function.update run.queues stream rest .cuda)
    by_cases heq : TransferStream.cuda = stream
    · rw [← heq] at hqueue ⊢
      rw [Function.update_self]
      have hbacked := h.backed
      rw [hqueue] at hbacked
      exact hbacked.pop
    · rw [Function.update_of_ne heq]
      exact h.backed.log op

theorem Ordered.on_cuda (h : run.Ordered codec) {stream : TransferStream}
    (hqueue : run.queues stream = op :: rest) (hfinish : op.isFinish = true) :
    run.queues .cuda = op :: rest := by
  cases stream with
  | cuda => exact hqueue
  | highPriority =>
    have hop := h.highPriority op (hqueue ▸ mem_cons_self)
    exact absurd hfinish (eq_false_iff.mp hop)

theorem Ordered.hasRun_storeCopies (h : run.Ordered codec) {stream : TransferStream}
    (hqueue : run.queues stream = op :: rest) (hfinish : op.isFinish = true) :
    run.HasRun isStoreCopy op.task := by
  have hcuda := h.on_cuda hqueue hfinish
  obtain ⟨handler, hhandler, _⟩ := h.finished op (hcuda ▸ mem_cons_self) hfinish
  have hbacked := h.backed
  rw [hcuda] at hbacked
  exact ⟨handler, hhandler, fun call hcall copy hcopy hkind =>
    hbacked.head ⟨hfinish, hkind, handler, hhandler, call, hcall, hcopy⟩⟩

theorem Ordered.hasRun_loads (h : run.Ordered codec) {stream : TransferStream}
    (hqueue : run.queues stream = op :: rest) (hfinish : op.isFinish = true)
    (hloads : ∀ load ∈ run.queues .highPriority, load.isLoad = true → load.task ≠ op.task) :
    run.HasRun isLoad op.task := by
  have hcuda := h.on_cuda hqueue hfinish
  obtain ⟨handler, hhandler, hle⟩ := h.finished op (hcuda ▸ mem_cons_self) hfinish
  have hserved := h.served op.task handler hhandler
  refine ⟨handler, hhandler, fun call hcall load hload hkind => ?_⟩
  rcases hserved.wellFormed.mem_sound hcall hload with hlast | hsound
  · exact absurd (isRetrieveCopy_of_isLoad hkind)
      (eq_false_iff.mp (isFinish_spec hlast).2.2)
  · have hissued := hserved.issued call (by rwa [take_of_length_le hle]) load hload
    rw [(hsound.on load hload).2 (isRetrieveCopy_of_isLoad hkind)] at hissued
    exact hissued.resolve_right fun hqueued => hloads load hqueued hkind (hsound.task load hload)

theorem Primed.transferred (h : run.Primed codec) (hordered : run.Ordered codec)
    {stream : TransferStream} (hqueue : run.queues stream = op :: rest)
    (hloads : op.isFinishRead = true →
      ∀ load ∈ run.queues .highPriority, load.isLoad = true → load.task ≠ op.task) :
    run.Transferred codec (run.runHead codec stream) op := by
  rw [runHead_cons hqueue]
  cases op with
  | memcpyD2H c =>
    have hready : (run.buffers.own c.id).gathered = some run.buffers.tmpGpuBuffer :=
      h.ready_head hqueue rfl
    change _ = some (Function.update run.buffers.tensors c.object _ c.object)
    rw [Function.update_self, hready]
  | copyQuantized c =>
    have hready : (run.buffers.own c.id).gathered.map codec.encodeTensor =
        some (run.buffers.encodedQuantized c.id, run.buffers.encodedScale c.id) :=
      h.ready_head hqueue rfl
    have hfst := congrArg (Option.map Prod.fst) hready
    rw [Option.map_map] at hfst
    change _ = some (Function.update run.buffers.quantized c.object _ c.object)
    rw [Function.update_self]
    exact hfst
  | copyScale c =>
    have hready : (run.buffers.own c.id).gathered.map codec.encodeTensor =
        some (run.buffers.encodedQuantized c.id, run.buffers.encodedScale c.id) :=
      h.ready_head hqueue rfl
    have hsnd := congrArg (Option.map Prod.snd) hready
    rw [Option.map_map] at hsnd
    change _ = some (Function.update run.buffers.scales c.object _ c.object)
    rw [Function.update_self]
    exact hsnd
  | scatter c => exact ⟨_, h.ready_head hqueue rfl, rfl⟩
  | finishWrite task keys => exact hordered.hasRun_storeCopies hqueue rfl
  | finishReadPrefetched task keys => exact hordered.hasRun_loads hqueue rfl (hloads rfl)
  | _ => trivial

theorem Ordered.exec (h : run.Ordered codec)
    (ev : GpuTransferEvent K V Q S chunkSize blockSize) : (run.exec codec ev).Ordered codec := by
  cases ev with
  | store task args reserved =>
    exact h.start (TransferHandler.wellFormed_store task args reserved) rfl
  | retrieve task args skip found =>
    exact h.start (TransferHandler.wellFormed_retrieve task args skip found) rfl
  | call task => exact h.next task
  | raises task n => exact h.raise task n
  | synchronized task => exact h.synchronize task
  | run stream =>
    cases hqueue : run.queues stream with
    | nil =>
      rw [GpuTransferRun.exec, runHead, hqueue]
      exact h
    | cons op rest => exact h.pop hqueue
  | writeKv slot v => exact h.write _
  | writeObject object tensor quantized scale => exact h.write _

theorem Ordered.isSection (h : run.Ordered codec) (hhandler : run.handlers task = some handler)
    (hcall : handler.program[handler.position]? = some call) :
    GpuBuffers.IsSection codec call.ops := by
  have hserved := h.served task handler hhandler
  rcases hserved.wellFormed.call_cases hcall with hsound | ⟨_, _, op, hop, _, rfl⟩
  · exact hsound.isSection
  · exact isSection_singleton (isFinish_spec hop).1

theorem Primed.exec (h : run.Primed codec) (hordered : run.Ordered codec)
    (ev : GpuTransferEvent K V Q S chunkSize blockSize) (htimely : run.Timely ev) :
    (run.exec codec ev).Primed codec := by
  cases ev with
  | store task args reserved | retrieve task args skip found =>
    rw [GpuTransferRun.exec, start]
    split_ifs <;> exact h
  | call task =>
    rw [GpuTransferRun.exec, GpuTransferRun.call]
    cases hnext : run.nextCall task with
    | none => exact h
    | some next =>
      obtain ⟨hhandler, hcall⟩ := nextCall_eq_some hnext
      have hsection := hordered.isSection hhandler hcall
      exact h.push hsection.chain hsection.head
  | raises task n =>
    rw [GpuTransferRun.exec, GpuTransferRun.raises]
    cases hnext : run.nextCall task with
    | none => exact h
    | some next =>
      obtain ⟨hhandler, hcall⟩ := nextCall_eq_some hnext
      have hsection : GpuBuffers.IsSection codec
          (if next.2.underLock then next.2.ops.take n else []) := by
        split_ifs
        · exact (hordered.isSection hhandler hcall).take n
        · exact isSection_nil
      exact h.push hsection.chain hsection.head
  | synchronized task =>
    rw [GpuTransferRun.exec, GpuTransferRun.synchronized]
    split_ifs <;> exact h
  | run stream =>
    cases hqueue : run.queues stream with
    | nil =>
      rw [GpuTransferRun.exec, runHead, hqueue]
      exact h
    | cons op rest =>
      rw [GpuTransferRun.exec, runHead_cons hqueue]
      exact h.pop hqueue (hordered.undisturbed hqueue (htimely op (by rw [hqueue]; rfl)).1)
  | writeKv slot v => exact h.frame fun op hready => by cases op <;> exact hready
  | writeObject object tensor quantized scale =>
    exact h.frame fun op hready => by cases op <;> exact hready

theorem Primed.kept (h : run.Primed codec) (hordered : run.Ordered codec)
    (ev : GpuTransferEvent K V Q S chunkSize blockSize) (htimely : run.Timely ev) :
    run.Kept codec ev := by
  cases ev with
  | run stream =>
    intro op hop
    obtain ⟨rest, hqueue⟩ := head?_eq_some_iff.mp hop
    exact h.transferred hordered hqueue (htimely op hop).2
  | _ => trivial

theorem stored_before_finishWrite (codec : BaseCodec V Q S) (buffers : GpuBuffers K V Q S)
    (evs : List (GpuTransferEvent K V Q S chunkSize blockSize)) (task : ℕ) (keys : List K)
    (rest : List (TransferOp K chunkSize))
    (h : (final (exec codec) (init buffers) evs).queues .cuda =
      .finishWrite task keys :: rest) :
    (final (exec codec) (init buffers) evs).HasRun isStoreCopy task := by
  have hordered : Ordered codec (final (exec codec) (init buffers) evs) :=
    invariant_final (fun _ ev hrun _ => hrun.exec ev) (ordered_init buffers)
      (along_of_forall (fun _ _ => trivial) _ evs)
  exact hordered.hasRun_storeCopies h rfl

theorem kept_of_timely (codec : BaseCodec V Q S) (buffers : GpuBuffers K V Q S)
    (evs : List (GpuTransferEvent K V Q S chunkSize blockSize))
    (h : Execution.Along (exec codec) Timely (init buffers) evs) :
    Execution.Along (exec codec) (Kept codec) (init buffers) evs := by
  have hinit : Primed codec (init buffers : GpuTransferRun K V Q S chunkSize) :=
    Streams.Discipline.primed_empty _ _
  have hstep : ∀ (run : GpuTransferRun K V Q S chunkSize)
      (ev : GpuTransferEvent K V Q S chunkSize blockSize),
      run.Ordered codec ∧ run.Primed codec → run.Timely ev →
        (run.exec codec ev).Ordered codec ∧ (run.exec codec ev).Primed codec :=
    fun _ ev hrun htimely => ⟨hrun.1.exec ev, hrun.2.exec hrun.1 ev htimely⟩
  exact along_of_invariant hstep (fun _ ev hrun htimely => hrun.2.kept hrun.1 ev htimely)
    ⟨ordered_init buffers, hinit⟩ h

def unitCodec : BaseCodec ℕ (List ℕ) ℕ where
  scale := fun tensor => tensor.sum
  quantized := fun tensor scale => tensor.map (· + scale)
  widen := fun quantized => quantized
  mulScale := fun tensor scale => tensor.map (· - scale)

def twoChunks : GpuBuffers ℕ ℕ (List ℕ) ℕ where
  pagedKv := fun slot => if slot = 0 then 7 else 0
  tensors := fun object => if object = 1 then [9] else []
  quantized := fun _ => [12]
  scales := fun _ => 3
  tmpGpuBuffer := []
  encodedQuantized := fun _ => []
  encodedScale := fun _ => 0
  scaleOnDst := fun _ => 0
  own := fun _ => ⟨none, none, none, none⟩

def oneChunk (object blockId : ℕ) (tier : Tier) : TransferArgs ℕ 1 1 where
  objKeys := [object]
  tiers := [tier]
  int8Enabled := true
  gpuBlockIds := [blockId]
  tiersLength := rfl
  covered := le_rfl

def oneAfterTheOther : List (GpuTransferEvent ℕ ℕ (List ℕ) ℕ 1 1) :=
  [.store 0 (oneChunk 0 0 .base) [0], .retrieve 1 (oneChunk 1 5 .base) 0 true, .call 0, .call 0,
    .run .cuda, .run .cuda, .run .cuda, .run .cuda, .run .cuda, .run .cuda, .synchronized 0,
    .call 1, .run .highPriority, .run .highPriority, .call 0, .call 0, .call 1, .call 1,
    .run .highPriority, .run .highPriority, .run .highPriority, .run .cuda, .run .cuda, .run .cuda]

theorem stored_before_finishWrite_oneChunk : (Execution.final (exec unitCodec) (init twoChunks)
    (oneAfterTheOther.take 22)).HasRun TransferOp.isStoreCopy 0 :=
  stored_before_finishWrite unitCodec twoChunks (oneAfterTheOther.take 22) 0 [0] _ rfl

theorem kept_oneAfterTheOther :
    Execution.Along (exec unitCodec) (Kept unitCodec) (init twoChunks) oneAfterTheOther :=
  kept_of_timely unitCodec twoChunks oneAfterTheOther (by decide)

def bothEnqueued : List (GpuTransferEvent ℕ ℕ (List ℕ) ℕ 1 1) :=
  [.store 0 (oneChunk 0 0 .full) [0], .retrieve 1 (oneChunk 1 5 .full) 0 true, .call 0, .call 0,
    .call 1, .call 1, .call 1, .run .cuda, .run .cuda]

theorem not_kept_bothEnqueued :
    ¬ Execution.Along (exec unitCodec) (Kept unitCodec) (init twoChunks)
        (bothEnqueued ++ [.run .highPriority, .run .cuda]) ∧
      ¬ Execution.Along (exec unitCodec) (Kept unitCodec) (init twoChunks)
        (bothEnqueued ++ [.run .cuda, .run .cuda]) := by
  constructor
  · intro h
    have hsave := ((along_append _ bothEnqueued _).mp h).2.2.1
    have hsaved : some [7] = some [9] :=
      hsave (.memcpyD2H ((oneChunk 0 0 .full).chunk 0 0 ⟨0, Nat.succ_pos 0⟩)) rfl
    exact absurd hsaved (by decide)
  · intro h
    have hfinish := ((along_append _ bothEnqueued _).mp h).2.2.1
    obtain ⟨handler, hhandler, hran⟩ := hfinish (.finishReadPrefetched 1 [1]) rfl
    obtain rfl := Option.some.inj hhandler
    have hload := hran _ mem_cons_self _ mem_cons_self rfl
    have hnone : ∀ op ∈ (exec unitCodec (final (exec unitCodec) (init twoChunks)
        bothEnqueued) (.run .cuda : GpuTransferEvent ℕ ℕ (List ℕ) ℕ 1 1)).ran,
        op.isLoad = false := by
      decide
    exact absurd (hnone _ hload) (by decide)

end GpuTransferRun

end LMCache
