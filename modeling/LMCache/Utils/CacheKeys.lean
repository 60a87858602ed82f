import LMCache.CacheEngineKey
import LMCache.Foundations.Dict
import LMCache.Foundations.Text

namespace LMCache.Utils

open Numeral Text

inductive TorchDtype where
  | float16
  | bfloat16
  | float32
  | float64
  | int8
  | uint8
  | int16
  | int32
  | int64
  | bool
  | float8E4m3fn
  | float8E4m3fnuz
  | float8E5m2
  | float8E5m2fnuz
deriving DecidableEq

namespace TorchDtype

def all : List TorchDtype :=
  [.float16, .bfloat16, .float32, .float64, .int8, .uint8, .int16, .int32, .int64, .bool,
    .float8E4m3fn, .float8E4m3fnuz, .float8E5m2, .float8E5m2fnuz]

def toStrDtype : TorchDtype → List Char
  | .float16 => "half".toList
  | .bfloat16 => "bfloat16".toList
  | .float32 => "float".toList
  | .float64 => "double".toList
  | .int8 => "int8".toList
  | .uint8 => "uint8".toList
  | .int16 => "int16".toList
  | .int32 => "int32".toList
  | .int64 => "int64".toList
  | .bool => "bool".toList
  | .float8E4m3fn => "fp8_e4m3fn".toList
  | .float8E4m3fnuz => "fp8_e4m3fnuz".toList
  | .float8E5m2 => "fp8_e5m2".toList
  | .float8E5m2fnuz => "fp8_e5m2fnuz".toList

def ofStrDtype (s : List Char) : Option TorchDtype := all.find? fun dtype => dtype.toStrDtype == s

theorem ofStrDtype_toStrDtype (dtype : TorchDtype) : ofStrDtype dtype.toStrDtype = some dtype := by
  cases dtype <;> decide

theorem at_not_mem_toStrDtype (dtype : TorchDtype) : '@' ∉ dtype.toStrDtype := by
  cases dtype <;> decide

end TorchDtype

abbrev RequestConfigs := Dict (List Char) (List Char)

abbrev Tag := List Char × List Char

def tagPrefix : List Char := "lmcache.tag.".toList

def tagName (name : List Char) : Option (List Char) :=
  if tagPrefix.isPrefixOf name then some (name.drop tagPrefix.length) else none

variable {V : Type}

def itemTags (items : List (List Char × V)) : List (List Char × V) :=
  items.filterMap fun item => (tagName item.1).map fun name => (name, item.2)

def tagsOf : Option (Dict (List Char) V) → Option (List (List Char × V))
  | none => none
  | some configs =>
      match itemTags configs.items with
      | [] => none
      | tag :: tags => some (tag :: tags)

structure CacheEngineKey where
  modelName : List Char
  worldSize : ℤ
  workerId : ℤ
  chunkHash : ℤ
  dtype : TorchDtype
  requestConfigs : Option RequestConfigs

structure LayerCacheEngineKey extends CacheEngineKey where
  layerId : ℤ

inductive Key where
  | chunk (key : CacheEngineKey)
  | layer (key : LayerCacheEngineKey)

inductive KeyError where
  | invalidKeyString (s : List Char)
  | invalidLiteral (base : ℕ) (s : List Char)
  | unknownDtype (s : List Char)
deriving DecidableEq

def tagText (tag : Tag) : List Char := tag.1 ++ '%' :: tag.2

def tagsText : Option (List Tag) → List Char
  | none => []
  | some [] => []
  | some (tag :: tags) => '@' :: ['@'].intercalate ((tag :: tags).map tagText)

namespace CacheEngineKey

variable (k : CacheEngineKey)

def tags : Option (List Tag) := tagsOf k.requestConfigs

def Eq (k k' : CacheEngineKey) : Prop :=
  k.modelName = k'.modelName ∧ k.worldSize = k'.worldSize ∧ k.workerId = k'.workerId ∧
    k.chunkHash = k'.chunkHash ∧ k.dtype = k'.dtype ∧ k.tags = k'.tags

def chunkHashHex : List Char := formatInt 16 k.chunkHash

def toString : List Char :=
  k.modelName ++ '@' :: (formatInt 10 k.worldSize ++ '@' :: (formatInt 10 k.workerId ++
    '@' :: (k.chunkHashHex ++ '@' :: k.dtype.toStrDtype))) ++ tagsText k.tags

end CacheEngineKey

def LayerCacheEngineKey.toString (k : LayerCacheEngineKey) : List Char :=
  k.modelName ++ '@' :: (formatInt 10 k.worldSize ++ '@' :: (formatInt 10 k.workerId ++
    '@' :: (k.chunkHashHex ++ '@' :: (k.dtype.toStrDtype ++ '@' :: formatInt 10 k.layerId)))) ++
      tagsText k.tags

def splitTag (kv : List Char) : Option Tag :=
  match kv.dropWhile (· != '%') with
  | [] => none
  | _ :: value => some (kv.takeWhile (· != '%'), value)

def readTags (s : List Char) : List (List Char) → RequestConfigs → Except KeyError RequestConfigs
  | [], configs => .ok configs
  | kv :: rest, configs =>
      match splitTag kv with
      | none => .error (.invalidKeyString s)
      | some tag => readTags s rest (configs.set (tagPrefix ++ tag.1) tag.2)

def readConfigs (s : List Char) : List (List Char) → Except KeyError (Option RequestConfigs)
  | [] => .ok none
  | kv :: rest => (readTags s (kv :: rest) Dict.empty).map some

variable (u : UnicodeDigits)

def toInt (base : ℕ) (s : List Char) : Except KeyError ℤ :=
  match parseInt u base s with
  | some n => .ok n
  | none => .error (.invalidLiteral base s)

variable (s : List Char)

def toDtype : Except KeyError TorchDtype :=
  match TorchDtype.ofStrDtype s with
  | some dtype => .ok dtype
  | none => .error (.unknownDtype s)

def CacheEngineKey.fromString : Except KeyError CacheEngineKey :=
  match s.splitOn '@' with
  | modelName :: worldSize :: workerId :: chunkHash :: dtype :: rest => do
      let requestConfigs ← readConfigs s rest
      let worldSize ← toInt u 10 worldSize
      let workerId ← toInt u 10 workerId
      let chunkHash ← toInt u 16 chunkHash
      let dtype ← toDtype dtype
      return ⟨modelName, worldSize, workerId, chunkHash, dtype, requestConfigs⟩
  | _ => .error (.invalidKeyString s)

def LayerCacheEngineKey.fromString : Except KeyError LayerCacheEngineKey :=
  match s.splitOn '@' with
  | modelName :: worldSize :: workerId :: chunkHash :: dtype :: layerId :: rest => do
      let requestConfigs ← readConfigs s rest
      let worldSize ← toInt u 10 worldSize
      let workerId ← toInt u 10 workerId
      let chunkHash ← toInt u 16 chunkHash
      let dtype ← toDtype dtype
      let layerId ← toInt u 10 layerId
      return ⟨⟨modelName, worldSize, workerId, chunkHash, dtype, requestConfigs⟩, layerId⟩
  | _ => .error (.invalidKeyString s)

def parseCacheKey : Except KeyError Key :=
  match ((strip s).splitOn '@')[5]? with
  | some part =>
      if isDigitStr u part then (LayerCacheEngineKey.fromString u s).map .layer
      else (CacheEngineKey.fromString u s).map .chunk
  | none => (CacheEngineKey.fromString u s).map .chunk

namespace Key

def toString : Key → List Char
  | .chunk k => k.toString
  | .layer k => k.toString

def base : Key → CacheEngineKey
  | .chunk k => k
  | .layer k => k.toCacheEngineKey

def Eq : Key → Key → Prop
  | .chunk k, .chunk k' => k.Eq k'
  | .layer k, .layer k' => k.toCacheEngineKey.Eq k'.toCacheEngineKey ∧ k.layerId = k'.layerId
  | _, _ => False

end Key

theorem map_fst_itemTags (items : List (List Char × V)) :
    (itemTags items).map Prod.fst = (items.map Prod.fst).filterMap tagName := by
  rw [itemTags, List.map_filterMap, List.filterMap_map]
  refine List.filterMap_congr fun item _ => ?_
  rw [Option.map_map, Function.comp_apply]
  exact Option.map_id'

theorem tagName_inj {name name' tag : List Char} (h : tagName name = some tag)
    (h' : tagName name' = some tag) : name = name' := by
  rw [tagName, Option.ite_none_right_eq_some] at h h'
  obtain ⟨rest, rfl⟩ := List.isPrefixOf_iff_prefix.mp h.1
  obtain ⟨rest', rfl⟩ := List.isPrefixOf_iff_prefix.mp h'.1
  have heq : rest = rest' := by simpa using h.2.trans h'.2.symm
  rw [heq]

theorem nodup_map_fst_itemTags (configs : Dict (List Char) V) :
    ((itemTags configs.items).map Prod.fst).Nodup := by
  rw [map_fst_itemTags]
  exact configs.nodup.filterMap fun _ _ _ htag htag' => tagName_inj htag htag'

variable {configs : Option (Dict (List Char) V)} {tags : List (List Char × V)}

theorem nodup_map_fst_of_tagsOf (h : tagsOf configs = some tags) : (tags.map Prod.fst).Nodup := by
  cases configs with
  | none => cases h
  | some configs =>
    rw [tagsOf] at h
    split at h
    · cases h
    · next tag rest heq =>
      obtain rfl := Option.some.inj h
      rw [← heq]
      exact nodup_map_fst_itemTags configs

theorem getD_tagsOf (configs : Dict (List Char) V) :
    (tagsOf (some configs)).getD [] = itemTags configs.items := by
  rw [tagsOf]
  split
  · next heq => exact heq.symm
  · next heq => exact heq.symm

theorem ne_nil_of_tagsOf (h : tagsOf configs = some tags) : tags ≠ [] := by
  cases configs with
  | none => cases h
  | some configs =>
    rw [tagsOf] at h
    split at h
    · cases h
    · rw [← Option.some.inj h]
      exact List.cons_ne_nil _ _

end LMCache.Utils
