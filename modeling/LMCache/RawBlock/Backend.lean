import LMCache.Foundations.Cells
import LMCache.Protocol.MetaMessages
import Mathlib.Data.Finset.Basic

namespace LMCache.RawBlock

open Utils Protocol

def roundUp (x align : ℕ) : ℕ := (x + align - 1) / align * align

structure RawBlockConfig where
  devicePath : List Char
  capacityBytes : ℕ
  blockAlign : ℕ
  headerBytes : ℕ
  slotBytes : ℕ
  useOdirect : Bool
  manifestWriteInterval : ℕ
  physicalSize : List ℤ → TorchDtype → MemoryFormat → ℕ
  blockAlign_pos : 0 < blockAlign
  slotBytes_ge : headerBytes + 1 ≤ slotBytes
  slot_aligned : blockAlign ∣ slotBytes
  header_aligned : blockAlign ∣ headerBytes

structure KeyCodec (K : Type) where
  toString : K → List Char
  fromString : List Char → Option K
  dtype : K → TorchDtype
  chunkHash : K → ℤ

structure BlockMeta where
  size : ℕ
  shape : List ℤ
  dtype : TorchDtype
  cachedPositions : Option (List ℤ)
  fmt : MemoryFormat
deriving DecidableEq

structure BlockEntry where
  offset : ℕ
  size : ℕ
  info : BlockMeta
deriving DecidableEq

structure Inflight where
  offset : ℕ
  info : BlockMeta
  canceled : Bool
deriving DecidableEq

structure ChunkObj (config : RawBlockConfig) where
  shape : List ℤ
  dtype : TorchDtype
  fmt : MemoryFormat
  cachedPositions : Option (List ℤ)
  data : List UInt8
  length_data : data.length = config.physicalSize shape dtype fmt

def ChunkObj.info {config : RawBlockConfig} (obj : ChunkObj config) : BlockMeta :=
  ⟨obj.data.length, obj.shape, obj.dtype, obj.cachedPositions, obj.fmt⟩

structure Snapshot (K : Type) where
  capacityBytes : ℕ
  nextSlot : ℕ
  freeSlots : List ℕ
  lru : List K
  index : Dict K BlockEntry
  inflight : Dict K Inflight
  deviceWrites : ℕ

inductive WritePhase (K : Type) where
  | checked
  | queued (offset : ℕ)
  | header (offset : ℕ)
  | payload (offset : ℕ)
  | written (offset : ℕ) (failed : Bool)
  | completed
  | saving (snapshot : Snapshot K)
  | finishing

def WritePhase.offset? {K : Type} : WritePhase K → Option ℕ
  | .queued offset => some offset
  | .header offset => some offset
  | .payload offset => some offset
  | .written offset _ => some offset
  | _ => none

structure WriteJob (K : Type) (config : RawBlockConfig) where
  obj : ChunkObj config
  phase : WritePhase K

structure DeviceWrite (K : Type) where
  key : K
  slotOffset : ℕ
  start : ℕ
  bytes : List UInt8
  payload : Option (List UInt8)

structure Reader (K : Type) where
  key : K
  entry : BlockEntry
  fetched : Bool

structure RawBlockState (K : Type) (config : RawBlockConfig) where
  index : Dict K BlockEntry
  pinned : Finset K
  inflight : Dict K Inflight
  lru : List K
  nextSlot : ℕ
  freeSlots : List ℕ
  maxSlots : ℕ
  capacityBytes : ℕ
  putTasks : Finset K
  writesSinceManifestSave : ℕ
  jobs : Dict K (WriteJob K config)
  readers : Dict ℕ (Reader K)
  device : ℕ → UInt8
  manifest : Option (Snapshot K)
  stored : List (K × List UInt8)
  deviceWrites : List (DeviceWrite K)
  returned : List (K × List UInt8)
  balance : K → ℕ → ℤ
  evictions : List (K × (ℕ → ℤ))

inductive SizeAnswer where
  | size (bytes : ℕ)
  | runtimeError
  | osError
deriving DecidableEq

inductive SlotResult where
  | slot (offset : ℕ)
  | runtimeError
  | osError
deriving DecidableEq

inductive WriteOutcome where
  | done
  | failed (written : ℕ)
deriving DecidableEq

inductive RawBlockEvent (K : Type) (config : RawBlockConfig) where
  | submit (key : K) (obj : ChunkObj config)
  | reserve (key : K) (answer : SizeAnswer)
  | start (key : K)
  | writeHeader (key : K) (outcome : WriteOutcome)
  | writePayload (key : K) (outcome : WriteOutcome)
  | complete (key : K)
  | saveManifest (key : K)
  | replaceManifest (key : K) (saved : Bool)
  | finish (key : K)
  | remove (key : K)
  | contains (holder : ℕ) (key : K) (pin : Bool)
  | pin (holder : ℕ) (key : K)
  | unpin (holder : ℕ) (key : K)
  | lookup (reader : ℕ) (key : K)
  | read (reader : ℕ) (buffer : List UInt8)
  | readFails (reader : ℕ)
  | touch (reader : ℕ)

namespace RawBlockConfig

variable (config : RawBlockConfig)

def magic : List UInt8 := [76, 77, 67, 66, 76, 75, 48, 49]

def leBytes : ℕ → ℕ → List UInt8
  | 0, _ => []
  | width + 1, n => UInt8.ofNat n :: leBytes width (n / 256)

def encodeHeader (chunkHash : ℤ) (payloadLen : ℕ) : List UInt8 :=
  magic ++ leBytes 8 (chunkHash % 18446744073709551616).toNat ++ leBytes 8 payloadLen ++
    List.replicate (config.headerBytes - 24) 0

def headerLength : ℕ := max 24 config.headerBytes

def totalLength (length : ℕ) : ℕ :=
  if config.useOdirect then roundUp length config.blockAlign else length

def padded (data : List UInt8) : List UInt8 :=
  data ++ List.replicate (config.totalLength data.length - data.length) 0

def rejects (obj : ChunkObj config) : Bool :=
  config.useOdirect &&
    decide (config.slotBytes - config.headerBytes < config.totalLength obj.data.length)

end RawBlockConfig

namespace RawBlockState

variable {K : Type} [DecidableEq K] {config : RawBlockConfig} (codec : KeyCodec K)

def start (config : RawBlockConfig) (device : ℕ → UInt8) : RawBlockState K config where
  index := Dict.empty
  pinned := ∅
  inflight := Dict.empty
  lru := []
  nextSlot := 0
  freeSlots := []
  maxSlots := 0
  capacityBytes := config.capacityBytes
  putTasks := ∅
  writesSinceManifestSave := 0
  jobs := Dict.empty
  readers := Dict.empty
  device := device
  manifest := none
  stored := []
  deviceWrites := []
  returned := []
  balance := fun _ _ => 0
  evictions := []

variable (s : RawBlockState K config)

def resolveCapacity (answer : SizeAnswer) : RawBlockState K config × Option SlotResult :=
  if s.capacityBytes = 0 then
    match answer with
    | .size bytes => ({ s with capacityBytes := bytes }, none)
    | .runtimeError => (s, some .runtimeError)
    | .osError => (s, some .osError)
  else (s, none)

def resolveMaxSlots : RawBlockState K config :=
  if s.maxSlots = 0 then { s with maxSlots := s.capacityBytes / config.slotBytes } else s

def takeSlot : RawBlockState K config × SlotResult :=
  if s.maxSlots = 0 then (s, .runtimeError)
  else
    match s.freeSlots.getLast? with
    | some slot =>
        ({ s with freeSlots := s.freeSlots.dropLast }, .slot (slot * config.slotBytes))
    | none =>
        if s.nextSlot < s.maxSlots then
          ({ s with nextSlot := s.nextSlot + 1 }, .slot (s.nextSlot * config.slotBytes))
        else (s, .runtimeError)

def allocateSlot (answer : SizeAnswer) : RawBlockState K config × SlotResult :=
  match s.resolveCapacity answer with
  | (s, some error) => (s, error)
  | (s, none) => s.resolveMaxSlots.takeSlot

def forgetPins (balance : K → ℕ → ℤ) (key : K) : K → ℕ → ℤ :=
  fun key' => if key' = key then fun _ => 0 else balance key'

def evict (victim : K) (entry : BlockEntry) : RawBlockState K config :=
  { s with
    index := s.index.erase victim
    lru := s.lru.filter (fun key => decide (key ≠ victim))
    pinned := s.pinned.erase victim
    freeSlots := s.freeSlots ++ [entry.offset / config.slotBytes]
    balance := forgetPins s.balance victim
    evictions := s.evictions ++ [(victim, s.balance victim)] }

def evictScan (s : RawBlockState K config) : List K → RawBlockState K config × Bool
  | [] => (s, false)
  | victim :: rest =>
      if victim ∈ s.pinned ∨ s.inflight.contains victim = true then s.evictScan rest
      else
        match s.index.get? victim with
        | some entry => (s.evict victim entry, true)
        | none =>
            evictScan { s with lru := s.lru.filter (fun key => decide (key ≠ victim)) } rest

def evictOne : RawBlockState K config × Bool := s.evictScan s.lru

def reserveSlot (answer : SizeAnswer) :
    ℕ → RawBlockState K config → RawBlockState K config × SlotResult
  | 0, s => (s, .runtimeError)
  | fuel + 1, s =>
      match s.allocateSlot answer with
      | (s, .runtimeError) =>
          match s.evictOne with
          | (s, true) => reserveSlot answer fuel s
          | (s, false) => (s, .runtimeError)
      | (s, result) => (s, result)

variable (key : K)

def touchKey : RawBlockState K config :=
  { s with lru := s.lru.filter (fun key' => decide (key' ≠ key)) ++ [key] }

variable (job : WriteJob K config)

def setPhase (phase : WritePhase K) : RawBlockState K config :=
  { s with jobs := s.jobs.set key { job with phase := phase } }

def discardPut : RawBlockState K config :=
  { s with putTasks := s.putTasks.erase key, jobs := s.jobs.erase key }

def submit (obj : ChunkObj config) : RawBlockState K config :=
  if key ∈ s.putTasks then s
  else
    { s with putTasks := insert key s.putTasks, jobs := s.jobs.set key ⟨obj, .checked⟩ }

def reserve (answer : SizeAnswer) : RawBlockState K config :=
  if s.index.contains key = true ∨ s.inflight.contains key = true then s.discardPut key
  else
    match reserveSlot answer (s.lru.length + 1) s with
    | (s, .slot offset) =>
        { s with
          inflight := s.inflight.set key ⟨offset, job.obj.info, false⟩
          jobs := s.jobs.set key { job with phase := .queued offset }
          stored := s.stored ++ [(key, job.obj.data)] }
    | (s, .runtimeError) => s.discardPut key
    | (s, .osError) => { s with jobs := s.jobs.erase key }

variable (offset : ℕ)

def startWrite : RawBlockState K config :=
  if config.rejects job.obj then s.discardPut key else s.setPhase key job (.header offset)

variable (outcome : WriteOutcome)

def outcomeBytes (bytes : List UInt8) : List UInt8 :=
  match outcome with
  | .done => bytes
  | .failed written => bytes.take written

def deviceWrite (w : DeviceWrite K) : RawBlockState K config :=
  { s with
    device := ByteDevice.write s.device w.start w.bytes
    deviceWrites := s.deviceWrites ++ [w] }

def headerWrite : DeviceWrite K :=
  ⟨key, offset, offset,
    outcomeBytes outcome
      (config.padded (config.encodeHeader (codec.chunkHash key) job.obj.data.length)), none⟩

def payloadWrite : DeviceWrite K :=
  ⟨key, offset, offset + config.headerBytes, outcomeBytes outcome (config.padded job.obj.data),
    match outcome with
    | .done => some job.obj.data
    | .failed _ => none⟩

def writeHeader : RawBlockState K config :=
  let s := s.deviceWrite (headerWrite codec key job offset outcome)
  match outcome with
  | .done => s.setPhase key job (.payload offset)
  | .failed _ => s.setPhase key job (.written offset true)

def writePayload : RawBlockState K config :=
  let s := s.deviceWrite (payloadWrite key job offset outcome)
  match outcome with
  | .done => s.setPhase key job (.written offset false)
  | .failed _ => s.setPhase key job (.written offset true)

def complete (failed : Bool) : RawBlockState K config :=
  let phase := if failed then .finishing else .completed
  match s.inflight.get? key with
  | none => s.setPhase key job phase
  | some inflight =>
      let s := { s with inflight := s.inflight.erase key }
      if inflight.canceled || failed then
        { s with freeSlots := s.freeSlots ++ [inflight.offset / config.slotBytes] }.setPhase
          key job phase
      else
        ({ s with
          index := s.index.set key
            ⟨inflight.offset, inflight.info.size, inflight.info⟩ }.touchKey key).setPhase
          key job phase

def snapshot : Snapshot K :=
  ⟨s.capacityBytes, s.nextSlot, s.freeSlots, s.lru, s.index, s.inflight, s.deviceWrites.length⟩

def maybeSaveManifest : RawBlockState K config :=
  if config.manifestWriteInterval = 0 then s.setPhase key job .finishing
  else if config.manifestWriteInterval ≤ s.writesSinceManifestSave + 1 then
    { s with writesSinceManifestSave := 0 }.setPhase key job (.saving s.snapshot)
  else
    { s with writesSinceManifestSave := s.writesSinceManifestSave + 1 }.setPhase
      key job .finishing

def removeKey : RawBlockState K config :=
  let freed := match s.index.get? key with
    | some entry => [entry.offset / config.slotBytes]
    | none => []
  let inflight := match s.inflight.get? key with
    | some inflight => s.inflight.set key { inflight with canceled := true }
    | none => s.inflight
  { s with
    index := s.index.erase key
    pinned := s.pinned.erase key
    lru := s.lru.filter (fun key' => decide (key' ≠ key))
    freeSlots := s.freeSlots ++ freed
    inflight := inflight
    balance := forgetPins s.balance key }

def addBalance (holder : ℕ) (n : ℤ) : K → ℕ → ℤ :=
  fun key' holder' =>
    if key' = key ∧ holder' = holder then s.balance key' holder' + n else s.balance key' holder'

def pinKey (holder : ℕ) (key : K) : RawBlockState K config :=
  if s.index.contains key = true then
    { s with pinned := insert key s.pinned, balance := s.addBalance key holder 1 }
  else s

def unpinKey (holder : ℕ) (key : K) : RawBlockState K config :=
  { s with
    pinned := s.pinned.erase key
    balance := if s.index.contains key = true then s.addBalance key holder (-1) else s.balance }

def lookup (reader : ℕ) (key : K) : RawBlockState K config :=
  match s.index.get? key with
  | some entry => { s with readers := s.readers.set reader ⟨key, entry, false⟩ }
  | none => s

def readPayload (reader : ℕ) (r : Reader K) (buffer : List UInt8) : RawBlockState K config :=
  let size := r.entry.info.size
  if buffer.length < size then { s with readers := s.readers.erase reader }
  else
    { s with
      returned := s.returned ++ [(r.key,
        ByteDevice.read s.device (r.entry.offset + config.headerBytes) size ++ buffer.drop size)]
      readers := s.readers.set reader { r with fetched := true } }

def exec : RawBlockEvent K config → RawBlockState K config
  | .submit key obj => s.submit key obj
  | .reserve key answer =>
      match s.jobs.get? key with
      | some ⟨obj, .checked⟩ => s.reserve key ⟨obj, .checked⟩ answer
      | _ => s
  | .start key =>
      match s.jobs.get? key with
      | some ⟨obj, .queued offset⟩ => s.startWrite key ⟨obj, .queued offset⟩ offset
      | _ => s
  | .writeHeader key outcome =>
      match s.jobs.get? key with
      | some ⟨obj, .header offset⟩ => s.writeHeader codec key ⟨obj, .header offset⟩ offset outcome
      | _ => s
  | .writePayload key outcome =>
      match s.jobs.get? key with
      | some ⟨obj, .payload offset⟩ => s.writePayload key ⟨obj, .payload offset⟩ offset outcome
      | _ => s
  | .complete key =>
      match s.jobs.get? key with
      | some ⟨obj, .written offset failed⟩ => s.complete key ⟨obj, .written offset failed⟩ failed
      | _ => s
  | .saveManifest key =>
      match s.jobs.get? key with
      | some ⟨obj, .completed⟩ => s.maybeSaveManifest key ⟨obj, .completed⟩
      | _ => s
  | .replaceManifest key saved =>
      match s.jobs.get? key with
      | some ⟨obj, .saving snapshot⟩ =>
          { s with manifest := if saved then some snapshot else s.manifest }.setPhase
            key ⟨obj, .saving snapshot⟩ .finishing
      | _ => s
  | .finish key =>
      match s.jobs.get? key with
      | some ⟨_, .finishing⟩ => s.discardPut key
      | _ => s
  | .remove key => s.removeKey key
  | .contains holder key pin => if pin then s.pinKey holder key else s
  | .pin holder key => s.pinKey holder key
  | .unpin holder key => s.unpinKey holder key
  | .lookup reader key => if s.readers.contains reader = true then s else s.lookup reader key
  | .read reader buffer =>
      match s.readers.get? reader with
      | some ⟨key, entry, false⟩ =>
          if buffer.length =
              config.physicalSize entry.info.shape entry.info.dtype entry.info.fmt then
            s.readPayload reader ⟨key, entry, false⟩ buffer
          else s
      | _ => s
  | .readFails reader =>
      match s.readers.get? reader with
      | some ⟨_, _, false⟩ => { s with readers := s.readers.erase reader }
      | _ => s
  | .touch reader =>
      match s.readers.get? reader with
      | some ⟨key, _, true⟩ => { s with readers := s.readers.erase reader }.touchKey key
      | _ => s

end RawBlockState

end LMCache.RawBlock
