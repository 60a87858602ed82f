import Mathlib.Data.List.FinRange
import LMCache.Foundations.Cells
import LMCache.Foundations.Execution
import LMCache.Multiprocess.PrecisionCodec

namespace LMCache

open Function

structure BaseCodec (V Q S : Type) where
  scale : List V → S
  quantized : List V → S → Q
  widen : Q → List V
  mulScale : List V → S → List V

def BaseCodec.encodeTensor {V Q S : Type} (codec : BaseCodec V Q S) (tensor : List V) : Q × S :=
  (codec.quantized tensor (codec.scale tensor), codec.scale tensor)

inductive TransferStream where
  | cuda
  | highPriority
  deriving DecidableEq

structure ChunkTransfer (K : Type) (chunkSize : ℕ) where
  task : ℕ
  idx : ℕ
  object : K
  isBase : Bool
  slotMapping : List ℕ
  skip : ℕ
  full : slotMapping.length = chunkSize

namespace ChunkTransfer

variable {K : Type} {chunkSize : ℕ}

def id (c : ChunkTransfer K chunkSize) : ℕ × ℕ := (c.task, c.idx)

end ChunkTransfer

inductive TransferOp (K : Type) (chunkSize : ℕ) where
  | event (task : ℕ)
  | gather (c : ChunkTransfer K chunkSize)
  | computeScale (c : ChunkTransfer K chunkSize)
  | quantize (c : ChunkTransfer K chunkSize)
  | copyQuantized (c : ChunkTransfer K chunkSize)
  | copyScale (c : ChunkTransfer K chunkSize)
  | memcpyD2H (c : ChunkTransfer K chunkSize)
  | memcpyH2D (c : ChunkTransfer K chunkSize)
  | loadQuantized (c : ChunkTransfer K chunkSize)
  | loadScale (c : ChunkTransfer K chunkSize)
  | mulScale (c : ChunkTransfer K chunkSize)
  | scatter (c : ChunkTransfer K chunkSize)
  | finishWrite (task : ℕ) (keys : List K)
  | finishReadPrefetched (task : ℕ) (keys : List K)

namespace TransferOp

variable {K : Type} {chunkSize : ℕ}

def task : TransferOp K chunkSize → ℕ
  | .event task | .finishWrite task _ | .finishReadPrefetched task _ => task
  | .gather c | .computeScale c | .quantize c | .copyQuantized c | .copyScale c | .memcpyD2H c
  | .memcpyH2D c | .loadQuantized c | .loadScale c | .mulScale c | .scatter c => c.task

def isStoreCopy : TransferOp K chunkSize → Bool
  | .gather _ | .computeScale _ | .quantize _ | .copyQuantized _ | .copyScale _
  | .memcpyD2H _ => true
  | _ => false

def isLoad : TransferOp K chunkSize → Bool
  | .memcpyH2D _ | .loadQuantized _ | .loadScale _ => true
  | _ => false

end TransferOp

structure OwnBytes (V Q S : Type) where
  gathered : Option (List V)
  tensor : Option (List V)
  quantized : Option Q
  scale : Option S

structure GpuBuffers (K V Q S : Type) where
  pagedKv : ℕ → V
  tensors : K → List V
  quantized : K → Q
  scales : K → S
  tmpGpuBuffer : List V
  encodedQuantized : ℕ × ℕ → Q
  encodedScale : ℕ × ℕ → S
  scaleOnDst : ℕ × ℕ → S
  own : ℕ × ℕ → OwnBytes V Q S

namespace GpuBuffers

variable {K V Q S : Type} {chunkSize : ℕ}

def record (b : GpuBuffers K V Q S) (c : ChunkTransfer K chunkSize)
    (f : OwnBytes V Q S → OwnBytes V Q S) : GpuBuffers K V Q S :=
  { b with own := update b.own c.id (f (b.own c.id)) }

variable [DecidableEq K]

def exec (codec : BaseCodec V Q S) (b : GpuBuffers K V Q S) :
    TransferOp K chunkSize → GpuBuffers K V Q S
  | .event _ => b
  | .gather c =>
      { b with tmpGpuBuffer := c.slotMapping.map b.pagedKv }.record c
        (fun own => { own with gathered := some (c.slotMapping.map b.pagedKv) })
  | .computeScale c =>
      { b with encodedScale := update b.encodedScale c.id (codec.scale b.tmpGpuBuffer) }
  | .quantize c =>
      { b with
        encodedQuantized := update b.encodedQuantized c.id
          (codec.quantized b.tmpGpuBuffer (b.encodedScale c.id)) }
  | .copyQuantized c =>
      { b with quantized := update b.quantized c.object (b.encodedQuantized c.id) }
  | .copyScale c =>
      { b with scales := update b.scales c.object (b.encodedScale c.id) }
  | .memcpyD2H c =>
      { b with tensors := update b.tensors c.object b.tmpGpuBuffer }
  | .memcpyH2D c =>
      { b with tmpGpuBuffer := b.tensors c.object }.record c
        (fun own => { own with tensor := some (b.tensors c.object) })
  | .loadQuantized c =>
      { b with tmpGpuBuffer := codec.widen (b.quantized c.object) }.record c
        (fun own => { own with quantized := some (b.quantized c.object) })
  | .loadScale c =>
      { b with scaleOnDst := update b.scaleOnDst c.id (b.scales c.object) }.record c
        (fun own => { own with scale := some (b.scales c.object) })
  | .mulScale c =>
      { b with tmpGpuBuffer := codec.mulScale b.tmpGpuBuffer (b.scaleOnDst c.id) }
  | .scatter c =>
      { b with
        pagedKv := Cells.write b.pagedKv ((c.slotMapping.zip b.tmpGpuBuffer).drop c.skip) }
  | .finishWrite _ _ => b
  | .finishReadPrefetched _ _ => b

end GpuBuffers

def isMpInt8BaseTierEnabled (int8Enabled : Bool) (tier : Tier) : Bool := tier = .base && int8Enabled

def getSlotMappingTensor (blockSize : ℕ) (gpuBlockIds : List ℕ) : List ℕ :=
  gpuBlockIds.flatMap (fun blockId =>
    (List.range blockSize).map (fun offset => offset + blockId * blockSize))

theorem length_getSlotMappingTensor (blockSize : ℕ) (gpuBlockIds : List ℕ) :
    (getSlotMappingTensor blockSize gpuBlockIds).length = gpuBlockIds.length * blockSize := by
  rw [getSlotMappingTensor, List.length_flatMap]
  simp

structure TransferArgs (K : Type) (chunkSize blockSize : ℕ) where
  objKeys : List K
  tiers : List Tier
  int8Enabled : Bool
  gpuBlockIds : List ℕ
  tiersLength : tiers.length = objKeys.length
  covered : objKeys.length * chunkSize ≤ gpuBlockIds.length * blockSize

namespace TransferArgs

variable {K : Type} {chunkSize blockSize : ℕ} (args : TransferArgs K chunkSize blockSize)

def slotMapping (idx : ℕ) : List ℕ :=
  Slice.slice (getSlotMappingTensor blockSize args.gpuBlockIds) (idx * chunkSize)
    (idx * chunkSize + chunkSize)

theorem length_slotMapping (idx : Fin args.objKeys.length) :
    (args.slotMapping idx).length = chunkSize := by
  have hidx : (idx.val + 1) * chunkSize ≤ args.objKeys.length * chunkSize :=
    Nat.mul_le_mul_right chunkSize idx.isLt
  rw [Nat.add_mul, Nat.one_mul] at hidx
  rw [slotMapping, Slice.length_slice _ ?_, Nat.add_sub_cancel_left]
  rw [length_getSlotMappingTensor]
  exact hidx.trans args.covered

def chunk (task skip : ℕ) (idx : Fin args.objKeys.length) : ChunkTransfer K chunkSize where
  task
  idx
  object := args.objKeys.get idx
  isBase := isMpInt8BaseTierEnabled args.int8Enabled
    (args.tiers.get (idx.cast args.tiersLength.symm))
  slotMapping := args.slotMapping idx
  skip
  full := args.length_slotMapping idx

end TransferArgs

structure TransferCall (K : Type) (chunkSize : ℕ) where
  stream : TransferStream
  ops : List (TransferOp K chunkSize)
  underLock : Bool
  synchronizes : Bool

namespace TransferCall

variable {K : Type} {chunkSize : ℕ}

def launch (stream : TransferStream) (op : TransferOp K chunkSize) : TransferCall K chunkSize :=
  ⟨stream, [op], false, false⟩

def storeChunk (c : ChunkTransfer K chunkSize) : TransferCall K chunkSize :=
  ⟨.cuda, .gather c ::
    if c.isBase then [.computeScale c, .quantize c, .copyQuantized c, .copyScale c]
    else [.memcpyD2H c], true, c.isBase⟩

def retrieveChunk (c : ChunkTransfer K chunkSize) : TransferCall K chunkSize :=
  ⟨.highPriority, (if c.isBase then [.loadQuantized c, .loadScale c, .mulScale c]
    else [.memcpyH2D c]) ++ [.scatter c], true, false⟩

end TransferCall

structure TransferHandler (K : Type) (chunkSize : ℕ) where
  program : List (TransferCall K chunkSize)
  onRaise : List (TransferCall K chunkSize)
  position : ℕ

namespace TransferHandler

variable {K : Type} {chunkSize blockSize : ℕ}

def store [DecidableEq K] (task : ℕ) (args : TransferArgs K chunkSize blockSize)
    (reserved : List K) : TransferHandler K chunkSize where
  program := .launch .cuda (.event task) ::
    (((List.finRange args.objKeys.length).map (args.chunk task 0)).filter
      (fun c => c.object ∈ reserved)).map .storeChunk ++
    [.launch .cuda (.event task), .launch .cuda (.finishWrite task reserved)]
  onRaise := []
  position := 0

def retrieveChunks (task : ℕ) (args : TransferArgs K chunkSize blockSize)
    (skipFirstNTokens : ℕ) : List (ChunkTransfer K chunkSize) :=
  (List.finRange args.objKeys.length).filterMap (fun idx =>
    let chunkStart := idx.val * chunkSize
    let effectiveStart := max chunkStart skipFirstNTokens
    if chunkStart + chunkSize ≤ effectiveStart then none
    else some (args.chunk task (min (effectiveStart - chunkStart) (chunkSize - 1)) idx))

def retrieve (task : ℕ) (args : TransferArgs K chunkSize blockSize) (skipFirstNTokens : ℕ)
    (found : Bool) : TransferHandler K chunkSize where
  program :=
    if found then
      (retrieveChunks task args skipFirstNTokens).map .retrieveChunk ++
        [.launch .highPriority (.event task),
          .launch .cuda (.finishReadPrefetched task args.objKeys)]
    else [.launch .highPriority (.event task)]
  onRaise := [.launch .highPriority (.event task)]
  position := 0

end TransferHandler

-- lock is held by a handler that waits in gpu_context.stream.synchronize(); ran records the
-- operations that have run
structure GpuTransferRun (K V Q S : Type) (chunkSize : ℕ) where
  handlers : ℕ → Option (TransferHandler K chunkSize)
  lock : Option ℕ
  queues : TransferStream → List (TransferOp K chunkSize)
  buffers : GpuBuffers K V Q S
  ran : List (TransferOp K chunkSize)

inductive GpuTransferEvent (K V Q S : Type) (chunkSize blockSize : ℕ) where
  | store (task : ℕ) (args : TransferArgs K chunkSize blockSize) (reserved : List K)
  | retrieve (task : ℕ) (args : TransferArgs K chunkSize blockSize) (skipFirstNTokens : ℕ)
      (found : Bool)
  | call (task : ℕ)
  | raises (task n : ℕ)
  | synchronized (task : ℕ)
  | run (stream : TransferStream)
  | writeKv (slot : ℕ) (v : V)
  | writeObject (object : K) (tensor : List V) (quantized : Q) (scale : S)

namespace GpuTransferRun

variable {K V Q S : Type} {chunkSize blockSize : ℕ}

def init (buffers : GpuBuffers K V Q S) : GpuTransferRun K V Q S chunkSize where
  handlers := fun _ => none
  lock := none
  queues := fun _ => []
  buffers := { buffers with own := fun _ => ⟨none, none, none, none⟩ }
  ran := []

variable (run : GpuTransferRun K V Q S chunkSize)

def start (task : ℕ) (handler : TransferHandler K chunkSize) : GpuTransferRun K V Q S chunkSize :=
  if run.handlers task = none then
    { run with handlers := update run.handlers task (some handler) }
  else run

def nextCall (task : ℕ) : Option (TransferHandler K chunkSize × TransferCall K chunkSize) :=
  (run.handlers task).bind (fun handler =>
    (handler.program[handler.position]?).bind (fun call =>
      if run.lock ≠ some task ∧ (call.underLock → run.lock = none) then some (handler, call)
      else none))

def push (stream : TransferStream) (ops : List (TransferOp K chunkSize)) :
    GpuTransferRun K V Q S chunkSize :=
  { run with queues := update run.queues stream (run.queues stream ++ ops) }

def setHandler (task : ℕ) (handler : TransferHandler K chunkSize) :
    GpuTransferRun K V Q S chunkSize :=
  { run with handlers := update run.handlers task (some handler) }

def call (run : GpuTransferRun K V Q S chunkSize) (task : ℕ) : GpuTransferRun K V Q S chunkSize :=
  match run.nextCall task with
  | none => run
  | some (handler, call) =>
      { (run.push call.stream call.ops).setHandler task
          { handler with position := handler.position + 1 } with
        lock := if call.synchronizes then some task else run.lock }

def raises (task n : ℕ) : GpuTransferRun K V Q S chunkSize :=
  match run.nextCall task with
  | none => run
  | some (handler, call) =>
      (run.push call.stream (if call.underLock then call.ops.take n else [])).setHandler task
        ⟨handler.onRaise, [], 0⟩

def synchronized (task : ℕ) : GpuTransferRun K V Q S chunkSize :=
  if run.lock = some task ∧ ∀ op ∈ run.queues .cuda, op.task ≠ task then
    { run with lock := none }
  else run

variable [DecidableEq K]

def runHead (codec : BaseCodec V Q S) (run : GpuTransferRun K V Q S chunkSize)
    (stream : TransferStream) : GpuTransferRun K V Q S chunkSize :=
  match run.queues stream with
  | [] => run
  | op :: rest =>
      { run with
        queues := update run.queues stream rest
        buffers := run.buffers.exec codec op
        ran := run.ran ++ [op] }

def exec (codec : BaseCodec V Q S) (run : GpuTransferRun K V Q S chunkSize) :
    GpuTransferEvent K V Q S chunkSize blockSize → GpuTransferRun K V Q S chunkSize
  | .store task args reserved => run.start task (.store task args reserved)
  | .retrieve task args skipFirstNTokens found =>
      run.start task (.retrieve task args skipFirstNTokens found)
  | .call task => run.call task
  | .raises task n => run.raises task n
  | .synchronized task => run.synchronized task
  | .run stream => run.runHead codec stream
  | .writeKv slot v =>
      { run with buffers :=
          { run.buffers with pagedKv := update run.buffers.pagedKv slot v } }
  | .writeObject object tensor quantized scale =>
      { run with buffers :=
          { run.buffers with
            tensors := update run.buffers.tensors object tensor
            quantized := update run.buffers.quantized object quantized
            scales := update run.buffers.scales object scale } }

end GpuTransferRun

end LMCache
