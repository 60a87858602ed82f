import LMCache.Utils.KeyStrings

namespace LMCache.Utils

open Numeral Text List Except

theorem itemTags_cons_some {name tag : List Char} (h : tagName name = some tag)
    (value : List Char) (items : List (List Char × List Char)) :
    itemTags ((name, value) :: items) = (tag, value) :: itemTags items :=
  filterMap_cons_some (by rw [h]; rfl)

theorem itemTags_cons_none {name : List Char} (h : tagName name = none) (value : List Char)
    (items : List (List Char × List Char)) :
    itemTags ((name, value) :: items) = itemTags items :=
  filterMap_cons_none (by rw [h]; rfl)

theorem weight_tags_assign (name value : List Char) (items : List (List Char × List Char)) :
    weight ((itemTags (Dict.assign (tagPrefix ++ name) value items)).map tagText) ≤
      weight ((itemTags items).map tagText) + ((tagText (name, value)).length + 1) := by
  have htag : tagName (tagPrefix ++ name) = some name := tagName_tagPrefix_append name
  induction items with
  | nil =>
    rw [Dict.assign, itemTags_cons_some htag, map_cons, weight_cons]
    exact Nat.le_of_eq (Nat.add_comm _ _)
  | cons item items ih =>
    obtain ⟨name', value'⟩ := item
    rw [Dict.assign]
    split
    · next heq =>
      subst heq
      rw [itemTags_cons_some htag, itemTags_cons_some htag, map_cons, map_cons,
        weight_cons, weight_cons]
      omega
    · cases hname : tagName name' with
      | none =>
        rw [itemTags_cons_none hname, itemTags_cons_none hname]
        exact ih
      | some tag =>
        rw [itemTags_cons_some hname, itemTags_cons_some hname, map_cons, map_cons,
          weight_cons, weight_cons]
        omega

variable {parts : List (List Char)}

theorem weight_readTags {s : List Char} {configs configs' : RequestConfigs}
    (h : readTags s parts configs = .ok configs') :
    weight ((itemTags configs'.items).map tagText) ≤
      weight ((itemTags configs.items).map tagText) + weight parts := by
  induction parts generalizing configs with
  | nil =>
    rw [ok.inj h]
    exact Nat.le_add_right _ _
  | cons kv rest ih =>
    rw [readTags] at h
    split at h
    · cases h
    · next tag htag =>
      have hkv := (eq_tagText_of_splitTag htag).1
      have hset : weight ((itemTags (configs.set (tagPrefix ++ tag.1) tag.2).items).map tagText) ≤
          weight ((itemTags configs.items).map tagText) + ((tagText tag).length + 1) :=
        weight_tags_assign tag.1 tag.2 configs.items
      have hrest := ih h
      rw [weight_cons, hkv]
      omega

theorem weight_readConfigs {s : List Char} {configs : Option RequestConfigs}
    (h : readConfigs s parts = .ok configs) :
    weight (((tagsOf configs).getD []).map tagText) ≤ weight parts := by
  cases parts with
  | nil =>
    rw [← ok.inj h]
    exact Nat.le_refl 0
  | cons kv rest =>
    cases hread : readTags s (kv :: rest) Dict.empty with
    | error e => rw [readConfigs, hread] at h; cases h
    | ok configs' =>
      rw [readConfigs, hread] at h
      rw [← ok.inj h, getD_tagsOf]
      have hweight := weight_readTags hread
      rw [show weight ((itemTags (Dict.empty : RequestConfigs).items).map tagText) = 0 from rfl,
        Nat.zero_add] at hweight
      exact hweight

variable {u : UnicodeDigits}

theorem length_formatInt_of_toInt {base : ℕ} {s : List Char} {n : ℤ} (hone : 1 < base)
    (h : toInt u base s = .ok n) : (formatInt base n).length ≤ s.length := by
  rw [toInt] at h
  split at h
  · next m hparse =>
    rw [← ok.inj h]
    exact length_formatInt_le hone hparse
  · cases h

variable {s : List Char}

theorem toStrDtype_of_toDtype {dtype : TorchDtype} (h : toDtype s = .ok dtype) :
    dtype.toStrDtype = s := by
  rw [toDtype] at h
  split at h
  · next dtype' hfind =>
    rw [← ok.inj h]
    rw [TorchDtype.ofStrDtype] at hfind
    have heq := find?_some hfind
    exact beq_iff_eq.mp heq
  · cases h

namespace CacheEngineKey

theorem length_toString_le {k : CacheEngineKey} (h : fromString u s = .ok k) :
    k.toString.length ≤ s.length := by
  have hjoin := length_intercalate (c := '@') (splitOn_ne_nil '@' s)
  rw [intercalate_splitOn] at hjoin
  rw [fromString] at h
  split at h
  · next modelName worldSize workerId chunkHash dtype rest heq =>
    obtain ⟨configs, hconfigs, h⟩ := exists_of_bind_eq_ok h
    obtain ⟨worldSize', hworld, h⟩ := exists_of_bind_eq_ok h
    obtain ⟨workerId', hworker, h⟩ := exists_of_bind_eq_ok h
    obtain ⟨chunkHash', hhash, h⟩ := exists_of_bind_eq_ok h
    obtain ⟨dtype', hdtype, h⟩ := exists_of_bind_eq_ok h
    obtain rfl := ok.inj h
    have hworld := length_formatInt_of_toInt (by decide) hworld
    have hworker := length_formatInt_of_toInt (by decide) hworker
    have hhash := length_formatInt_of_toInt (by decide) hhash
    have hdtype := congrArg length (toStrDtype_of_toDtype hdtype)
    have htags := weight_readConfigs hconfigs
    refine Nat.le_of_add_le_add_right (b := 1) ?_
    rw [hjoin, heq, toString_eq, length_intercalate (by simp [fields]), weight_append, fields]
    simp only [weight_cons, tagTexts, tags, chunkHashHex]
    rw [show weight [] = 0 from rfl]
    omega
  · cases h

end CacheEngineKey

namespace LayerCacheEngineKey

theorem length_toString_le {k : LayerCacheEngineKey} (h : fromString u s = .ok k) :
    k.toString.length ≤ s.length := by
  have hjoin := length_intercalate (c := '@') (splitOn_ne_nil '@' s)
  rw [intercalate_splitOn] at hjoin
  rw [fromString] at h
  split at h
  · next modelName worldSize workerId chunkHash dtype layerId rest heq =>
    obtain ⟨configs, hconfigs, h⟩ := exists_of_bind_eq_ok h
    obtain ⟨worldSize', hworld, h⟩ := exists_of_bind_eq_ok h
    obtain ⟨workerId', hworker, h⟩ := exists_of_bind_eq_ok h
    obtain ⟨chunkHash', hhash, h⟩ := exists_of_bind_eq_ok h
    obtain ⟨dtype', hdtype, h⟩ := exists_of_bind_eq_ok h
    obtain ⟨layerId', hlayer, h⟩ := exists_of_bind_eq_ok h
    obtain rfl := ok.inj h
    have hworld := length_formatInt_of_toInt (by decide) hworld
    have hworker := length_formatInt_of_toInt (by decide) hworker
    have hhash := length_formatInt_of_toInt (by decide) hhash
    have hlayer := length_formatInt_of_toInt (by decide) hlayer
    have hdtype := congrArg length (toStrDtype_of_toDtype hdtype)
    have htags := weight_readConfigs hconfigs
    refine Nat.le_of_add_le_add_right (b := 1) ?_
    rw [hjoin, heq, toString_eq, length_intercalate (by simp), weight_append, CacheEngineKey.fields]
    simp only [weight_cons, CacheEngineKey.tagTexts, CacheEngineKey.tags,
      CacheEngineKey.chunkHashHex]
    rw [show weight [] = 0 from rfl]
    omega
  · cases h

end LayerCacheEngineKey

namespace Key

theorem length_toString_le {k : Key} (h : parseCacheKey u s = .ok k) :
    k.toString.length ≤ s.length := by
  cases k with
  | chunk k => exact CacheEngineKey.length_toString_le (parseCacheKey_eq_chunk h)
  | layer k => exact LayerCacheEngineKey.length_toString_le (parseCacheKey_eq_layer h).1

theorem toString_congr {k k' : Key} (h : k.Eq k') : k.toString = k'.toString := by
  have hfields : ∀ {k k' : CacheEngineKey}, k.Eq k' →
      k.fields = k'.fields ∧ k.tagTexts = k'.tagTexts := by
    intro k k' heq
    obtain ⟨hmodel, hworld, hworker, hhash, hdtype, htags⟩ := heq
    rw [CacheEngineKey.fields, CacheEngineKey.fields, CacheEngineKey.tagTexts,
      CacheEngineKey.tagTexts, CacheEngineKey.chunkHashHex, CacheEngineKey.chunkHashHex, hmodel,
      hworld, hworker, hhash, hdtype, htags]
    exact ⟨rfl, rfl⟩
  cases k with
  | chunk k =>
    cases k' with
    | chunk k' =>
      rw [toString, toString, CacheEngineKey.toString_eq, CacheEngineKey.toString_eq,
        (hfields h).1, (hfields h).2]
    | layer k' => cases h
  | layer k =>
    cases k' with
    | chunk k' => cases h
    | layer k' =>
      rw [toString, toString, LayerCacheEngineKey.toString_eq, LayerCacheEngineKey.toString_eq,
        (hfields h.1).1, (hfields h.1).2, h.2]

theorem eq_toString_of_sublist {k k' : Key} (hparse : parseCacheKey u s = .ok k') (heq : k.Eq k')
    (hsub : s.Sublist k.toString) : s = k.toString := by
  refine hsub.eq_of_length (Nat.le_antisymm hsub.length_le ?_)
  rw [toString_congr heq]
  exact length_toString_le hparse

end Key

end LMCache.Utils
