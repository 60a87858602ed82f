import LMCache.Foundations.Streams
import LMCache.Multiprocess.GpuTransfers

namespace LMCache

open Function List TransferCall OwnBytes Option

def OwnBytes.bytes {V Q S : Type} (codec : BaseCodec V Q S) (isBase : Bool)
    (own : OwnBytes V Q S) : Option (List V) :=
  if isBase then own.quantized.bind (fun q => own.scale.map (codec.mulScale (codec.widen q)))
  else own.tensor

def TransferStream.other : TransferStream → TransferStream
  | .cuda => .highPriority
  | .highPriority => .cuda

theorem TransferStream.eq_other {stream stream' : TransferStream} (h : stream' ≠ stream) :
    stream' = stream.other := by
  cases stream <;> cases stream' <;> first | rfl | exact absurd rfl h

namespace TransferOp

variable {K : Type} {chunkSize : ℕ}

def writesBuffer : TransferOp K chunkSize → Bool
  | .gather _ | .memcpyH2D _ | .loadQuantized _ | .mulScale _ => true
  | _ => false

def needsBuffer : TransferOp K chunkSize → Bool
  | .computeScale _ | .quantize _ | .memcpyD2H _ | .loadScale _ | .mulScale _ | .scatter _ => true
  | _ => false

def continues : TransferOp K chunkSize → Bool
  | .computeScale _ | .quantize _ | .copyQuantized _ | .copyScale _ | .memcpyD2H _
  | .loadScale _ | .mulScale _ | .scatter _ => true
  | _ => false

def isRetrieveCopy : TransferOp K chunkSize → Bool
  | .memcpyH2D _ | .loadQuantized _ | .loadScale _ | .mulScale _ | .scatter _ => true
  | _ => false

def isFinish : TransferOp K chunkSize → Bool
  | .finishWrite _ _ | .finishReadPrefetched _ _ => true
  | _ => false

def isFinishRead : TransferOp K chunkSize → Bool
  | .finishReadPrefetched _ _ => true
  | _ => false

end TransferOp

namespace GpuBuffers

variable {K V Q S : Type} {chunkSize : ℕ}

def Ready (codec : BaseCodec V Q S) (b : GpuBuffers K V Q S) : TransferOp K chunkSize → Prop
  | .computeScale c | .memcpyD2H c => (b.own c.id).gathered = some b.tmpGpuBuffer
  | .quantize c =>
      (b.own c.id).gathered = some b.tmpGpuBuffer ∧ b.encodedScale c.id = codec.scale b.tmpGpuBuffer
  | .copyQuantized c | .copyScale c =>
      (b.own c.id).gathered.map codec.encodeTensor =
        some (b.encodedQuantized c.id, b.encodedScale c.id)
  | .loadScale c => (b.own c.id).quantized.map codec.widen = some b.tmpGpuBuffer
  | .mulScale c =>
      (b.own c.id).quantized.map codec.widen = some b.tmpGpuBuffer ∧
        (b.own c.id).scale = some (b.scaleOnDst c.id)
  | .scatter c => (b.own c.id).bytes codec c.isBase = some b.tmpGpuBuffer
  | _ => True

variable [DecidableEq K]

omit [DecidableEq K] in
theorem field_update {A : Type} (field : OwnBytes V Q S → A) {f : ℕ × ℕ → OwnBytes V Q S}
    {i : ℕ × ℕ} {own : OwnBytes V Q S} (h : field own = field (f i)) (j : ℕ × ℕ) :
    field (update f i own j) = field (f j) := by
  by_cases heq : j = i
  · rw [heq, update_self, h]
  · rw [update_of_ne heq]

variable {codec : BaseCodec V Q S} {b : GpuBuffers K V Q S} {op : TransferOp K chunkSize}

theorem tmpGpuBuffer_exec (h : op.writesBuffer = false) :
    (b.exec codec op).tmpGpuBuffer = b.tmpGpuBuffer := by
  cases op <;> first | rfl | cases h

theorem encoded_exec (h : op.isStoreCopy = false) :
    (b.exec codec op).encodedQuantized = b.encodedQuantized ∧
      (b.exec codec op).encodedScale = b.encodedScale := by
  cases op <;> first | exact ⟨rfl, rfl⟩ | cases h

theorem gathered_exec (h : op.isStoreCopy = false) (i : ℕ × ℕ) :
    ((b.exec codec op).own i).gathered = (b.own i).gathered := by
  cases op with
  | memcpyH2D c | loadQuantized c | loadScale c =>
    refine field_update gathered ?_ i
    rfl
  | event _ | mulScale _ | scatter _ | finishWrite _ _ | finishReadPrefetched _ _ => rfl
  | gather _ | computeScale _ | quantize _ | copyQuantized _ | copyScale _ | memcpyD2H _ => cases h

theorem scaleOnDst_exec (h : op.isRetrieveCopy = false) :
    (b.exec codec op).scaleOnDst = b.scaleOnDst := by
  cases op <;> first | rfl | cases h

theorem read_exec {A : Type} (field : OwnBytes V Q S → A)
    (hfield : ∀ own gathered, field { own with gathered } = field own)
    (h : op.isRetrieveCopy = false) (i : ℕ × ℕ) :
    field ((b.exec codec op).own i) = field (b.own i) := by
  cases op with
  | gather c => exact field_update field (hfield _ _) i
  | memcpyH2D _ | loadQuantized _ | loadScale _ | mulScale _ | scatter _ => cases h
  | _ => rfl

def Harmless (op next : TransferOp K chunkSize) : Prop :=
  (next.needsBuffer = true → op.writesBuffer = false) ∧
    (next.isStoreCopy = true → op.isStoreCopy = false) ∧
    (next.isRetrieveCopy = true → op.isRetrieveCopy = false)

theorem ready_exec {next : TransferOp K chunkSize} (h : Harmless op next)
    (hready : b.Ready codec next) : (b.exec codec op).Ready codec next := by
  obtain ⟨hbuffer, hstore, hretrieve⟩ := h
  cases next with
  | computeScale c | memcpyD2H c =>
    rw [Ready, gathered_exec (hstore rfl), tmpGpuBuffer_exec (hbuffer rfl)]
    exact hready
  | quantize c =>
    rw [Ready, gathered_exec (hstore rfl), tmpGpuBuffer_exec (hbuffer rfl),
      (encoded_exec (hstore rfl)).2]
    exact hready
  | copyQuantized c | copyScale c =>
    rw [Ready, gathered_exec (hstore rfl), (encoded_exec (hstore rfl)).1,
      (encoded_exec (hstore rfl)).2]
    exact hready
  | loadScale c =>
    rw [Ready, read_exec OwnBytes.quantized (fun _ _ => rfl) (hretrieve rfl),
      tmpGpuBuffer_exec (hbuffer rfl)]
    exact hready
  | mulScale c =>
    rw [Ready, read_exec OwnBytes.quantized (fun _ _ => rfl) (hretrieve rfl),
      read_exec scale (fun _ _ => rfl) (hretrieve rfl), scaleOnDst_exec (hretrieve rfl),
      tmpGpuBuffer_exec (hbuffer rfl)]
    exact hready
  | scatter c =>
    rw [Ready, read_exec (bytes codec c.isBase) (fun _ _ => rfl) (hretrieve rfl),
      tmpGpuBuffer_exec (hbuffer rfl)]
    exact hready
  | event _ | gather _ | memcpyH2D _ | loadQuantized _ | finishWrite _ _
  | finishReadPrefetched _ _ => trivial

def discipline (K : Type) [DecidableEq K] (chunkSize : ℕ) (codec : BaseCodec V Q S) :
    Streams.Discipline (TransferOp K chunkSize) (GpuBuffers K V Q S) where
  exec := exec codec
  continues := fun op => op.continues
  ready := Ready codec
  harmless := Harmless
  stable := fun _ _ h _ hready => ready_exec h hready

structure IsSection (codec : BaseCodec V Q S) (ops : List (TransferOp K chunkSize)) : Prop where
  chain : ops.IsChain (discipline K chunkSize codec).Follows
  head : ∀ op ∈ ops.head?, ¬ (discipline K chunkSize codec).continues op

theorem IsSection.take {ops : List (TransferOp K chunkSize)} (h : IsSection codec ops) (n : ℕ) :
    IsSection codec (ops.take n) := by
  refine ⟨?_, fun op hop => ?_⟩
  · have hchain := h.chain
    rw [← take_append_drop n ops] at hchain
    exact hchain.left_of_append
  · cases ops with
    | nil => simp at hop
    | cons first rest =>
      cases n with
      | zero => simp at hop
      | succ n => exact h.head op hop

theorem isSection_nil : IsSection codec ([] : List (TransferOp K chunkSize)) :=
  ⟨isChain_nil, fun _ hop => absurd hop (not_mem_none _)⟩

theorem isSection_singleton (h : op.continues = false) :
    IsSection codec [op] := by
  refine ⟨isChain_singleton op, fun first hfirst => ?_⟩
  obtain rfl := some.inj hfirst
  exact Bool.eq_false_iff.mp h

variable {c : ChunkTransfer K chunkSize}

theorem follows_gather (hop : op = .computeScale c ∨ op = .memcpyD2H c) :
    (discipline K chunkSize codec).Follows (.gather c) op := by
  refine fun _ b _ => ?_
  rcases hop with rfl | rfl
  all_goals
    change ((update b.own c.id _) c.id).gathered = _
    rw [update_self]
    rfl

theorem follows_computeScale :
    (discipline K chunkSize codec).Follows (.computeScale c) (.quantize c) :=
  fun _ _ hready => ⟨hready rfl, update_self _ _ _⟩

theorem follows_quantize :
    (discipline K chunkSize codec).Follows (.quantize c) (.copyQuantized c) := by
  refine fun _ b hready => ?_
  obtain ⟨hgathered, hscale⟩ := hready rfl
  change (b.own c.id).gathered.map codec.encodeTensor =
    some (update b.encodedQuantized c.id _ c.id, b.encodedScale c.id)
  rw [update_self, hgathered, hscale]
  rfl

theorem follows_copyQuantized :
    (discipline K chunkSize codec).Follows (.copyQuantized c) (.copyScale c) :=
  fun _ _ hready => hready rfl

theorem follows_memcpyH2D (h : c.isBase = false) :
    (discipline K chunkSize codec).Follows (.memcpyH2D c) (.scatter c) := by
  refine fun _ b _ => ?_
  change ((update b.own c.id _) c.id).bytes codec c.isBase = _
  rw [update_self, h]
  rfl

theorem follows_loadQuantized :
    (discipline K chunkSize codec).Follows (.loadQuantized c) (.loadScale c) := by
  refine fun _ b _ => ?_
  change ((update b.own c.id _) c.id).quantized.map codec.widen = _
  rw [update_self]
  rfl

theorem follows_loadScale :
    (discipline K chunkSize codec).Follows (.loadScale c) (.mulScale c) := by
  refine fun _ b hready => ?_
  change ((update b.own c.id _) c.id).quantized.map codec.widen = _ ∧
    ((update b.own c.id _) c.id).scale = some (update b.scaleOnDst c.id _ c.id)
  rw [update_self, update_self]
  exact ⟨hready rfl, rfl⟩

theorem follows_mulScale (h : c.isBase = true) :
    (discipline K chunkSize codec).Follows (.mulScale c) (.scatter c) := by
  refine fun _ b hready => ?_
  obtain ⟨hquantized, hscale⟩ := hready rfl
  change (b.own c.id).bytes codec c.isBase = some (codec.mulScale b.tmpGpuBuffer _)
  obtain ⟨q, hq, hwiden⟩ := map_eq_some_iff.mp hquantized
  rw [bytes, h, if_pos rfl, hq, bind_some, hscale, map_some, hwiden]

theorem isSection_storeChunk : IsSection codec (storeChunk c).ops := by
  have hhead : (TransferOp.gather c).continues ≠ true := Bool.false_ne_true
  cases hbase : c.isBase with
  | false =>
    rw [storeChunk, hbase]
    refine ⟨?_, fun op hop => some.inj hop ▸ hhead⟩
    exact isChain_cons_cons.mpr ⟨follows_gather (.inr rfl), isChain_singleton _⟩
  | true =>
    rw [storeChunk, hbase]
    refine ⟨?_, fun op hop => some.inj hop ▸ hhead⟩
    refine isChain_cons_cons.mpr ⟨follows_gather (.inl rfl), ?_⟩
    refine isChain_cons_cons.mpr ⟨follows_computeScale, ?_⟩
    refine isChain_cons_cons.mpr ⟨follows_quantize, ?_⟩
    exact isChain_cons_cons.mpr ⟨follows_copyQuantized, isChain_singleton _⟩

theorem isSection_retrieveChunk : IsSection codec (retrieveChunk c).ops := by
  cases hbase : c.isBase with
  | false =>
    have hhead : (TransferOp.memcpyH2D c).continues ≠ true := Bool.false_ne_true
    rw [retrieveChunk, hbase]
    refine ⟨?_, fun op hop => some.inj hop ▸ hhead⟩
    exact isChain_cons_cons.mpr ⟨follows_memcpyH2D hbase, isChain_singleton _⟩
  | true =>
    have hhead : (TransferOp.loadQuantized c).continues ≠ true := Bool.false_ne_true
    rw [retrieveChunk, hbase]
    refine ⟨?_, fun op hop => some.inj hop ▸ hhead⟩
    refine isChain_cons_cons.mpr ⟨follows_loadQuantized, ?_⟩
    refine isChain_cons_cons.mpr ⟨follows_loadScale, ?_⟩
    exact isChain_cons_cons.mpr ⟨follows_mulScale hbase, isChain_singleton _⟩

end GpuBuffers

end LMCache
