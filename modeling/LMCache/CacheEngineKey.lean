import Mathlib.Data.List.Nodup

namespace LMCache

structure CacheEngineKey where
  modelName : List Char
  worldSize : ℕ
  workerId : ℕ
  chunkHash : ℕ
  dtypeStr : List Char
  tags : List (List Char × List Char)
deriving DecidableEq

structure LayerCacheEngineKey where
  key : CacheEngineKey
  layerId : ℕ
deriving DecidableEq

namespace CacheEngineKey

def tagChars (tag : List Char × List Char) : List Char := tag.1 ++ ['%'] ++ tag.2

def toStr (key : CacheEngineKey) : List Char :=
  key.modelName ++ ['@'] ++ Nat.toDigits 10 key.worldSize ++ ['@'] ++
    Nat.toDigits 10 key.workerId ++ ['@'] ++ Nat.toDigits 16 key.chunkHash ++ ['@'] ++
    key.dtypeStr ++ key.tags.flatMap fun tag => ['@'] ++ tagChars tag

def splitLayers (key : CacheEngineKey) (numLayers : ℕ) : List LayerCacheEngineKey :=
  (List.range numLayers).map fun layerId => ⟨key, layerId⟩

end CacheEngineKey

inductive HotKey where
  | chunk (key : CacheEngineKey)
  | layer (key : LayerCacheEngineKey)
deriving DecidableEq

namespace HotKey

def chunkKey : HotKey → CacheEngineKey
  | .chunk key => key
  | .layer key => key.key

def chunkHash (key : HotKey) : ℕ := key.chunkKey.chunkHash

def splitLayers (key : HotKey) (numLayers : ℕ) : List HotKey :=
  (key.chunkKey.splitLayers numLayers).map .layer

theorem nodup_splitLayers (key : HotKey) (numLayers : ℕ) : (key.splitLayers numLayers).Nodup := by
  rw [splitLayers, CacheEngineKey.splitLayers, List.map_map]
  exact List.Nodup.map (fun _ _ heq => (LayerCacheEngineKey.mk.inj (HotKey.layer.inj heq)).2)
    List.nodup_range

theorem chunkHash_splitLayers {key key' : HotKey} {numLayers : ℕ}
    (h : key' ∈ key.splitLayers numLayers) : key'.chunkHash = key.chunkHash := by
  rw [splitLayers, CacheEngineKey.splitLayers, List.map_map] at h
  obtain ⟨layerId, _, rfl⟩ := List.mem_map.mp h
  rfl

end HotKey

end LMCache
