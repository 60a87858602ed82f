import LMCache.Foundations.Packing
import LMCache.Utils.KeyLengths

namespace LMCache.Protocol

open Struct Text Utils

def maxKeyLength : ℕ := 150

inductive ClientCommand where
  | put
  | get
  | exist
  | list
  | health
deriving DecidableEq

inductive ServerReturnCode where
  | success
  | fail
deriving DecidableEq

inductive MemoryFormat where
  | undefined
  | kv2ltd
  | kvT2d
  | kv2td
  | binary
  | binaryBuffer
  | kvMlaFmt
deriving DecidableEq

inductive ProtocolError where
  | keyLength (length : ℕ)
  | shapeDimension
  | notInitialized
  | shapesAndDtypes
  | unknownDtype
  | unknownLocation
  | unknownValue (value : ℤ)
  | structError
  | unicodeDecode
  | invalidKey (error : KeyError)
deriving DecidableEq

def orRaise {α : Type} (error : ProtocolError) : Option α → Except ProtocolError α
  | some a => .ok a
  | none => .error error

namespace ClientCommand

def value : ClientCommand → ℤ
  | .put => 1
  | .get => 2
  | .exist => 3
  | .list => 4
  | .health => 5

def ofValue (n : ℤ) : Except ProtocolError ClientCommand :=
  orRaise (.unknownValue n)
    ([.put, .get, .exist, .list, .health].find? fun command => command.value == n)

theorem ofValue_value (command : ClientCommand) : ofValue command.value = .ok command := by
  cases command <;> rfl

end ClientCommand

namespace ServerReturnCode

def value : ServerReturnCode → ℤ
  | .success => 200
  | .fail => 400

def ofValue (n : ℤ) : Except ProtocolError ServerReturnCode :=
  orRaise (.unknownValue n) ([.success, .fail].find? fun code => code.value == n)

theorem ofValue_value (code : ServerReturnCode) : ofValue code.value = .ok code := by
  cases code <;> rfl

end ServerReturnCode

namespace MemoryFormat

def value : MemoryFormat → ℤ
  | .undefined => 0
  | .kv2ltd => 1
  | .kvT2d => 2
  | .kv2td => 3
  | .binary => 4
  | .binaryBuffer => 5
  | .kvMlaFmt => 6

def ofValue (n : ℤ) : Except ProtocolError MemoryFormat :=
  orRaise (.unknownValue n)
    ([.undefined, .kv2ltd, .kvT2d, .kv2td, .binary, .binaryBuffer, .kvMlaFmt].find?
      fun fmt => fmt.value == n)

theorem ofValue_value (fmt : MemoryFormat) : ofValue fmt.value = .ok fmt := by
  cases fmt <;> rfl

end MemoryFormat

def dtypeToInt : Option TorchDtype → Except ProtocolError ℤ
  | none => .ok 0
  | some .float16 => .ok 2
  | some .bfloat16 => .ok 3
  | some .float32 => .ok 4
  | some .float64 => .ok 5
  | some .uint8 => .ok 6
  | some .float8E4m3fn => .ok 7
  | some .float8E5m2 => .ok 8
  | some _ => .error .unknownDtype

def intToDtype (n : ℤ) : Except ProtocolError (Option TorchDtype) :=
  if n = 0 then .ok none
  else if n = 1 then .ok (some .float16)
  else if n = 2 then .ok (some .float16)
  else if n = 3 then .ok (some .bfloat16)
  else if n = 4 then .ok (some .float32)
  else if n = 5 then .ok (some .float64)
  else if n = 6 then .ok (some .uint8)
  else if n = 7 then .ok (some .float8E4m3fn)
  else if n = 8 then .ok (some .float8E5m2)
  else .error .unknownDtype

def locations : List (Option (List Char) × ℤ) :=
  [(none, 0), (some "LocalCPUBackend".toList, 1), (some "LocalDiskBackend".toList, 2)]

def locationToInt (location : Option (List Char)) : Except ProtocolError ℤ :=
  orRaise .unknownLocation
    ((locations.find? fun entry => decide (entry.1 = location)).map fun entry => entry.2)

def intToLocation (n : ℤ) : Except ProtocolError (Option (List Char)) :=
  orRaise .unknownLocation ((locations.find? fun entry => entry.2 == n).map fun entry => entry.1)

structure ClientMetaMessage where
  command : ClientCommand
  key : Key
  length : ℤ
  fmt : MemoryFormat
  dtype : Option TorchDtype
  shape : List ℤ
  location : Option (List Char)

structure ServerMetaMessage where
  code : ServerReturnCode
  length : ℤ
  fmt : MemoryFormat
  dtype : Option TorchDtype
  shape : List ℤ
  location : Option (List Char)
deriving DecidableEq

structure RemoteMetadata where
  length : ℤ
  shapes : List (List ℤ)
  dtypes : List (Option TorchDtype)
  fmt : MemoryFormat
deriving DecidableEq

structure RemoteMetadataInfo where
  fmtLength : ℕ
  bytes : ℕ
deriving DecidableEq

def initRemoteMetadataInfo (numGroups : ℕ) : RemoteMetadataInfo where
  fmtLength := 2 + 5 * numGroups
  bytes := 4 * (2 + 5 * numGroups)

def ljust (width : ℕ) (bytes : List UInt8) : List UInt8 :=
  bytes ++ List.replicate (width - bytes.length) 32

variable (order : ByteOrder)

def readKey (u : UnicodeDigits) (field : List UInt8) : Except ProtocolError Key := do
  let text ← orRaise .unicodeDecode (Utf8.decode field)
  match parseCacheKey u (strip text) with
  | .ok key => .ok key
  | .error error => .error (.invalidKey error)

namespace ClientMetaMessage

def packlength : ℕ := 4 * 9 + maxKeyLength

def serialize (m : ClientMetaMessage) : Except ProtocolError (List UInt8) :=
  let keyStr := m.key.toString
  if maxKeyLength < keyStr.length then .error (.keyLength keyStr.length)
  else
    match m.shape with
    | [shape0, shape1, shape2, shape3] => do
        let dtype ← dtypeToInt m.dtype
        let location ← locationToInt m.location
        let ints ← orRaise .structError (packInts order 9 [m.command.value, m.length, m.fmt.value,
          dtype, location, shape0, shape1, shape2, shape3])
        return ints ++ packField maxKeyLength (ljust maxKeyLength (Utf8.encode keyStr))
    | _ => .error .shapeDimension

def deserialize (u : UnicodeDigits) (order : ByteOrder) (s : List UInt8) :
    Except ProtocolError ClientMetaMessage :=
  if s.length = packlength then
    match unpackInts order 9 s with
    | [command, length, fmt, dtype, location, shape0, shape1, shape2, shape3] => do
        let command ← ClientCommand.ofValue command
        let key ← readKey u (s.drop 36)
        let fmt ← MemoryFormat.ofValue fmt
        let dtype ← intToDtype dtype
        let location ← intToLocation location
        return ⟨command, key, length, fmt, dtype, [shape0, shape1, shape2, shape3], location⟩
    | _ => .error .structError
  else .error .structError

def Eq (m m' : ClientMetaMessage) : Prop :=
  m.command = m'.command ∧ m.key.Eq m'.key ∧ m.length = m'.length ∧ m.fmt = m'.fmt ∧
    m.dtype = m'.dtype ∧ m.shape = m'.shape ∧ m.location = m'.location

end ClientMetaMessage

namespace ServerMetaMessage

def packlength : ℕ := 4 * 9

def serialize (m : ServerMetaMessage) : Except ProtocolError (List UInt8) :=
  match m.shape with
  | [shape0, shape1, shape2, shape3] => do
      let dtype ← dtypeToInt m.dtype
      let location ← locationToInt m.location
      orRaise .structError (packInts order 9 [m.code.value, m.length, m.fmt.value, dtype, shape0,
        shape1, shape2, shape3, location])
  | _ => .error .shapeDimension

def deserialize (s : List UInt8) : Except ProtocolError ServerMetaMessage :=
  if s.length = packlength then
    match unpackInts order 9 s with
    | [code, length, fmt, dtype, shape0, shape1, shape2, shape3, location] => do
        let code ← ServerReturnCode.ofValue code
        let fmt ← MemoryFormat.ofValue fmt
        let dtype ← intToDtype dtype
        let location ← intToLocation location
        return ⟨code, length, fmt, dtype, [shape0, shape1, shape2, shape3], location⟩
    | _ => .error .structError
  else .error .structError

end ServerMetaMessage

namespace RemoteMetadata

def groupParams : List (List ℤ) → List (Option TorchDtype) → Except ProtocolError (List ℤ)
  | [], [] => .ok []
  | shape :: shapes, dtype :: dtypes =>
      match shape with
      | [shape0, shape1, shape2, shape3] => do
          let dtype ← dtypeToInt dtype
          let rest ← groupParams shapes dtypes
          return dtype :: shape0 :: shape1 :: shape2 :: shape3 :: rest
      | _ => .error .shapeDimension
  | _, _ => .error .shapesAndDtypes

def prepareParams (m : RemoteMetadata) : Except ProtocolError (List ℤ) := do
  let groups ← groupParams m.shapes m.dtypes
  return m.length :: m.fmt.value :: groups

def serialize (info : Option RemoteMetadataInfo) (m : RemoteMetadata) :
    Except ProtocolError (List UInt8) := do
  let info ← orRaise .notInitialized info
  let params ← m.prepareParams
  orRaise .structError (packInts order info.fmtLength params)

def readGroups : List ℤ → Except ProtocolError (List (List ℤ) × List (Option TorchDtype))
  | [] => .ok ([], [])
  | dtype :: rest => do
      let dtype ← intToDtype dtype
      let groups ← readGroups (rest.drop 4)
      return (rest.take 4 :: groups.1, dtype :: groups.2)
termination_by result => result.length
decreasing_by
  rw [List.length_drop, List.length_cons]
  omega

def deserialize (info : Option RemoteMetadataInfo) (s : List UInt8) :
    Except ProtocolError RemoteMetadata := do
  let info ← orRaise .notInitialized info
  if s.length < 4 * info.fmtLength then .error .structError
  else
    match unpackInts order info.fmtLength s with
    | length :: fmt :: groups => do
        let fmt ← MemoryFormat.ofValue fmt
        let groups ← readGroups groups
        return ⟨length, groups.1, groups.2, fmt⟩
    | _ => .error .structError

end RemoteMetadata

theorem exists_of_orRaise {α : Type} {error : ProtocolError} {x : Option α} {a : α}
    (h : orRaise error x = .ok a) : x = some a := by
  cases x with
  | none => cases h
  | some a' => rw [Except.ok.inj h]

theorem intToDtype_dtypeToInt {dtype : Option TorchDtype} {n : ℤ} (h : dtypeToInt dtype = .ok n) :
    intToDtype n = .ok dtype := by
  cases dtype with
  | none =>
    obtain rfl := Except.ok.inj h
    rfl
  | some dtype =>
    cases dtype <;> first | (obtain rfl := Except.ok.inj h; rfl) | cases h

theorem intToLocation_locationToInt {location : Option (List Char)} {n : ℤ}
    (h : locationToInt location = .ok n) : intToLocation n = .ok location := by
  obtain ⟨entry, hfind, rfl⟩ := Option.map_eq_some_iff.mp (exists_of_orRaise h)
  have hdecide := List.find?_some hfind
  have heq : entry.1 = location := of_decide_eq_true hdecide
  have hmem := List.mem_of_find?_eq_some hfind
  simp only [locations, List.mem_cons, List.not_mem_nil, or_false] at hmem
  rcases hmem with rfl | rfl | rfl
  · exact congrArg Except.ok heq
  · exact congrArg Except.ok heq
  · exact congrArg Except.ok heq

end LMCache.Protocol
