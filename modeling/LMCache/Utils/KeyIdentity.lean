import LMCache.Utils.KeyStrings

namespace LMCache.Utils

open Numeral Text Option

structure KeyIdentity where
  modelName : List Char
  worldSize : ℤ
  workerId : ℤ
  chunkHash : ℤ
  dtype : TorchDtype
  tags : List Tag
  layerId : Option ℤ
  nodup : (tags.map Prod.fst).Nodup
deriving DecidableEq

theorem nodup_map_fst_tags (k : CacheEngineKey) : ((k.tags.getD []).map Prod.fst).Nodup := by
  cases htags : k.tags with
  | none => exact List.nodup_nil
  | some tags => exact nodup_map_fst_of_tagsOf htags

theorem tags_eq_iff {k k' : CacheEngineKey} :
    k.tags.getD [] = k'.tags.getD [] ↔ k.tags = k'.tags := by
  refine ⟨fun h => ?_, fun h => by rw [h]⟩
  cases htags : k.tags with
  | none =>
    cases htags' : k'.tags with
    | none => rfl
    | some tags' =>
      rw [htags, htags', getD_none, getD_some] at h
      exact absurd h.symm (ne_nil_of_tagsOf htags')
  | some tags =>
    cases htags' : k'.tags with
    | none =>
      rw [htags, htags', getD_none, getD_some] at h
      exact absurd h (ne_nil_of_tagsOf htags)
    | some tags' =>
      rw [htags, htags', getD_some, getD_some] at h
      rw [h]

namespace Key

def layerId : Key → Option ℤ
  | .chunk _ => none
  | .layer k => some k.layerId

def identity (k : Key) : KeyIdentity where
  modelName := k.base.modelName
  worldSize := k.base.worldSize
  workerId := k.base.workerId
  chunkHash := k.base.chunkHash
  dtype := k.base.dtype
  tags := k.base.tags.getD []
  layerId := k.layerId
  nodup := nodup_map_fst_tags k.base

theorem identity_eq_iff (k k' : Key) : k.identity = k'.identity ↔ k.Eq k' := by
  rw [identity, identity, KeyIdentity.mk.injEq, tags_eq_iff]
  cases k with
  | chunk k =>
    cases k' with
    | chunk k' => simp [base, layerId, Eq, CacheEngineKey.Eq]
    | layer k' => simp [layerId, Eq]
  | layer k =>
    cases k' with
    | chunk k' => simp [layerId, Eq]
    | layer k' => simp [base, layerId, Eq, CacheEngineKey.Eq, and_assoc]

end Key

namespace KeyIdentity

variable (id : KeyIdentity)

def requestConfigs : Option RequestConfigs :=
  if id.tags = [] then none
  else
    some {
      items := id.tags.map fun tag => (tagPrefix ++ tag.1, tag.2)
      nodup := by
        have hnames := id.nodup.map (List.append_right_injective tagPrefix)
        rw [List.map_map] at hnames ⊢
        exact hnames }

def chunkKey : CacheEngineKey :=
  ⟨id.modelName, id.worldSize, id.workerId, id.chunkHash, id.dtype, id.requestConfigs⟩

def toKey : Key :=
  match id.layerId with
  | none => .chunk id.chunkKey
  | some layerId => .layer ⟨id.chunkKey, layerId⟩

def toString (id : KeyIdentity) : List Char := id.toKey.toString

def fromString (u : UnicodeDigits) (s : List Char) : Option KeyIdentity :=
  match CacheEngineKey.fromString u s with
  | .ok k => some (Key.chunk k).identity
  | .error _ => none

theorem tagsOf_requestConfigs : (tagsOf id.requestConfigs).getD [] = id.tags := by
  rw [requestConfigs]
  split
  · next hnil => rw [hnil]; rfl
  · next hne => rw [tagsOf_of_items hne rfl, getD_some]

theorem getD_tags_chunkKey : id.chunkKey.tags.getD [] = id.tags :=
  tagsOf_requestConfigs id

theorem identity_toKey : id.toKey.identity = id := by
  obtain ⟨modelName, worldSize, workerId, chunkHash, dtype, tags, layerId, hnodup⟩ := id
  have htags := getD_tags_chunkKey
    ⟨modelName, worldSize, workerId, chunkHash, dtype, tags, layerId, hnodup⟩
  cases layerId with
  | none => exact (KeyIdentity.mk.injEq ..).mpr ⟨rfl, rfl, rfl, rfl, rfl, htags, rfl⟩
  | some layerId => exact (KeyIdentity.mk.injEq ..).mpr ⟨rfl, rfl, rfl, rfl, rfl, htags, rfl⟩

theorem fromString_toString {id : KeyIdentity} (hlayer : id.layerId = none)
    (hclean : id.chunkKey.Clean) (u : UnicodeDigits) : fromString u id.toString = some id := by
  obtain ⟨k, hread, heq⟩ := CacheEngineKey.fromString_toString hclean u
  have htoKey : id.toKey = .chunk id.chunkKey := by rw [toKey, hlayer]
  have hidentity : (Key.chunk k).identity = id := by
    rw [← identity_toKey id, htoKey]
    exact ((Key.identity_eq_iff (.chunk id.chunkKey) (.chunk k)).mpr heq).symm
  rw [fromString, toString, htoKey, Key.toString, hread, ← hidentity]

end KeyIdentity

end LMCache.Utils
