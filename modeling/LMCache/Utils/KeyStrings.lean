import LMCache.Utils.CacheKeys

namespace LMCache.Utils

open Numeral Text List Key Option Except

namespace Tag

def Clean (tag : Tag) : Prop := '@' ∉ tag.1 ∧ '%' ∉ tag.1 ∧ '@' ∉ tag.2

instance (tag : Tag) : Decidable (Clean tag) := inferInstanceAs (Decidable (_ ∧ _))

end Tag

namespace CacheEngineKey

def Clean (k : CacheEngineKey) : Prop :=
  '@' ∉ k.modelName ∧ ∀ tag ∈ k.tags.getD [], Tag.Clean tag

instance (k : CacheEngineKey) : Decidable k.Clean := inferInstanceAs (Decidable (_ ∧ _))

def fields (k : CacheEngineKey) : List (List Char) :=
  [k.modelName, formatInt 10 k.worldSize, formatInt 10 k.workerId, k.chunkHashHex,
    k.dtype.toStrDtype]

def tagTexts (k : CacheEngineKey) : List (List Char) := (k.tags.getD []).map tagText

end CacheEngineKey

namespace Key

def Clean : Key → Prop
  | .chunk k => k.Clean
  | .layer k => k.toCacheEngineKey.Clean ∧ 0 ≤ k.layerId

def RoundTrips (u : UnicodeDigits) (k : Key) : Prop :=
  ∃ k', parseCacheKey u k.toString = .ok k' ∧ k.Eq k'

end Key

section Tags

variable {tag : Tag}

theorem splitTag_tagText (h : '%' ∉ tag.1) : splitTag (tagText tag) = some tag := by
  have hne : ∀ c ∈ tag.1, (c != '%') = true := by
    intro c hc
    rw [bne_iff_ne]
    exact fun heq => h (heq ▸ hc)
  have hdrop : (tagText tag).dropWhile (· != '%') = '%' :: tag.2 := by
    rw [tagText, dropWhile_append_of_pos hne]
    exact dropWhile_cons_of_neg (by simp)
  have htake : (tagText tag).takeWhile (· != '%') = tag.1 := by
    rw [tagText, takeWhile_append_of_pos hne, takeWhile_cons_of_neg (by simp), append_nil]
  rw [splitTag, hdrop, htake]

theorem eq_tagText_of_splitTag {kv : List Char} (h : splitTag kv = some tag) :
    kv = tagText tag ∧ '%' ∉ tag.1 := by
  rw [splitTag] at h
  split at h
  · cases h
  · next c value heq =>
    obtain rfl := some.inj h
    have hc : c = '%' := by
      have hhead := head_dropWhile_not (l := kv) (p := (· != '%'))
        (by rw [heq]; exact cons_ne_nil _ _)
      simpa [heq] using hhead
    refine ⟨?_, ?_⟩
    · have happend := takeWhile_append_dropWhile (p := (· != '%')) (l := kv)
      rw [heq, hc] at happend
      exact happend.symm
    · intro hmem
      have htake := mem_takeWhile_imp hmem
      simp at htake

theorem at_not_mem_tagText : '@' ∉ tagText tag ↔ '@' ∉ tag.1 ∧ '@' ∉ tag.2 := by
  rw [tagText, mem_append, mem_cons, not_or, not_or]
  exact ⟨fun h => ⟨h.1, h.2.2⟩, fun h => ⟨h.1, by decide, h.2⟩⟩

variable {tags : List Tag}

theorem readTags_map_tagText (s : List Char) (configs : RequestConfigs)
    (hclean : ∀ tag ∈ tags, '%' ∉ tag.1) (hnodup : (tags.map Prod.fst).Nodup)
    (hfresh : ∀ tag ∈ tags, tagPrefix ++ tag.1 ∉ configs.items.map Prod.fst) :
    ∃ configs', readTags s (tags.map tagText) configs = .ok configs' ∧
      configs'.items = configs.items ++ tags.map fun tag => (tagPrefix ++ tag.1, tag.2) := by
  induction tags generalizing configs with
  | nil => exact ⟨configs, rfl, (append_nil _).symm⟩
  | cons tag tags ih =>
    rw [map_cons, nodup_cons] at hnodup
    have hset : (configs.set (tagPrefix ++ tag.1) tag.2).items =
        configs.items ++ [(tagPrefix ++ tag.1, tag.2)] :=
      Dict.assign_of_notMem (hfresh tag mem_cons_self)
    obtain ⟨configs', hread, hitems⟩ := ih (configs.set (tagPrefix ++ tag.1) tag.2)
      (fun tag' h => hclean tag' (mem_cons_of_mem _ h)) hnodup.2 (by
        intro tag' h
        rw [hset, map_append, mem_append, not_or]
        refine ⟨hfresh tag' (mem_cons_of_mem _ h), ?_⟩
        intro heq
        have hname : tag'.1 = tag.1 := append_cancel_left (mem_singleton.mp heq)
        exact hnodup.1 (hname ▸ mem_map_of_mem h))
    refine ⟨configs', ?_, ?_⟩
    · rw [map_cons, readTags, splitTag_tagText (hclean tag mem_cons_self)]
      exact hread
    · rw [hitems, hset, append_assoc, map_cons, singleton_append]

theorem tagName_tagPrefix_append (name : List Char) : tagName (tagPrefix ++ name) = some name := by
  rw [tagName, if_pos (List.isPrefixOf_iff_prefix.mpr (prefix_append _ _)), drop_left]

variable {configs : RequestConfigs}

theorem tagsOf_of_items (hne : tags ≠ [])
    (hitems : configs.items = tags.map fun tag => (tagPrefix ++ tag.1, tag.2)) :
    tagsOf (some configs) = some tags := by
  have htags : itemTags configs.items = tags := by
    rw [hitems, itemTags, filterMap_map]
    refine (filterMap_congr fun tag _ => ?_).trans filterMap_some
    rw [Function.comp_apply, tagName_tagPrefix_append]
    rfl
  obtain ⟨tag, rest, rfl⟩ := exists_cons_of_ne_nil hne
  rw [tagsOf, htags]

def CleanConfigs (configs : RequestConfigs) : Prop :=
  ∀ name value, configs.get? name = some value →
    ∃ tag : Tag, name = tagPrefix ++ tag.1 ∧ value = tag.2 ∧ Tag.Clean tag

variable {parts : List (List Char)} {s : List Char}

theorem cleanConfigs_readTags {configs configs' : RequestConfigs}
    (hparts : ∀ part ∈ parts, '@' ∉ part) (hclean : CleanConfigs configs)
    (h : readTags s parts configs = .ok configs') :
    CleanConfigs configs' := by
  induction parts generalizing configs with
  | nil =>
    obtain rfl := ok.inj h
    exact hclean
  | cons kv rest ih =>
    rw [readTags] at h
    split at h
    · cases h
    · next tag htag =>
      obtain ⟨hkv, hpercent⟩ := eq_tagText_of_splitTag htag
      have hat := at_not_mem_tagText.mp (hkv ▸ hparts kv mem_cons_self)
      exact ih (fun part hpart => hparts part (mem_cons_of_mem _ hpart))
        (Dict.forall_set hclean ⟨tag, rfl, rfl, hat.1, hpercent, hat.2⟩) h

theorem clean_of_mem_tagsOf (hclean : CleanConfigs configs)
    (h : tag ∈ (tagsOf (some configs)).getD []) : Tag.Clean tag := by
  rw [getD_tagsOf] at h
  obtain ⟨item, hitem, hname⟩ := mem_filterMap.mp h
  obtain ⟨tag', hfst, hsnd, hclean⟩ :=
    hclean item.1 item.2 ((Dict.get?_eq_some_iff configs item.1 item.2).mpr hitem)
  rw [hfst, tagName_tagPrefix_append, map_some, hsnd] at hname
  rw [← some.inj hname]
  exact hclean

theorem clean_of_readConfigs {configs : Option RequestConfigs} (hparts : ∀ part ∈ parts, '@' ∉ part)
    (h : readConfigs s parts = .ok configs) :
    ∀ tag ∈ (tagsOf configs).getD [], Tag.Clean tag := by
  intro tag hmem
  cases parts with
  | nil =>
    rw [← ok.inj h] at hmem
    cases hmem
  | cons kv rest =>
    cases hread : readTags s (kv :: rest) Dict.empty with
    | error e => rw [readConfigs, hread] at h; cases h
    | ok configs' =>
      rw [readConfigs, hread] at h
      rw [← ok.inj h] at hmem
      exact clean_of_mem_tagsOf
        (cleanConfigs_readTags hparts (fun _ _ hget => by cases hget) hread) hmem

end Tags

theorem toInt_formatInt (base : ℕ) (hone : 1 < base) (hbase : base ≤ 16) (u : UnicodeDigits)
    (n : ℤ) : toInt u base (formatInt base n) = .ok n := by
  rw [toInt, parseInt_formatInt hone hbase]

theorem toDtype_toStrDtype (dtype : TorchDtype) : toDtype dtype.toStrDtype = .ok dtype := by
  rw [toDtype, TorchDtype.ofStrDtype_toStrDtype]

theorem tagsText_eq (tags : Option (List Tag)) :
    tagsText tags = ((tags.getD []).map tagText).flatMap fun text => '@' :: text := by
  cases tags with
  | none => rfl
  | some tags =>
    cases tags with
    | nil => rfl
    | cons tag tags =>
      rw [tagsText, map_cons, intercalate_cons_eq_flatMap, getD_some, map_cons,
        flatMap_cons, cons_append]

theorem exists_of_bind_eq_ok {ε α β : Type} {x : Except ε α} {f : α → Except ε β} {b : β}
    (h : x >>= f = .ok b) : ∃ a, x = .ok a ∧ f a = .ok b := by
  cases x with
  | error e => cases h
  | ok a => exact ⟨a, rfl, h⟩

namespace CacheEngineKey

variable {k : CacheEngineKey}

theorem toString_eq (k : CacheEngineKey) :
    k.toString = ['@'].intercalate (k.fields ++ k.tagTexts) := by
  rw [fields, cons_append, intercalate_cons_eq_flatMap, toString, tagsText_eq, tagTexts]
  simp

-- the key as the storage backends hold it
def hotKey (k : CacheEngineKey) : LMCache.CacheEngineKey :=
  ⟨k.modelName, k.worldSize.natAbs, k.workerId.natAbs, k.chunkHash.natAbs, k.dtype.toStrDtype,
    k.tags.getD []⟩

theorem toStr_hotKey (hworld : 0 ≤ k.worldSize) (hworker : 0 ≤ k.workerId)
    (hhash : 0 ≤ k.chunkHash) : k.hotKey.toStr = k.toString := by
  rw [toString, tagsText_eq, flatMap_map, chunkHashHex, formatInt, formatInt, formatInt,
    if_neg hworld.not_gt, if_neg hworker.not_gt, if_neg hhash.not_gt]
  simp [hotKey, LMCache.CacheEngineKey.toStr, LMCache.CacheEngineKey.tagChars, tagText]

theorem at_not_mem_fields (h : '@' ∉ k.modelName) : ∀ part ∈ k.fields, '@' ∉ part := by
  intro part hpart
  simp only [fields, mem_cons, not_mem_nil, or_false] at hpart
  rcases hpart with rfl | rfl | rfl | rfl | rfl
  · exact h
  · exact at_not_mem_formatInt (by decide) (by decide) _
  · exact at_not_mem_formatInt (by decide) (by decide) _
  · exact at_not_mem_formatInt (by decide) (by decide) _
  · exact k.dtype.at_not_mem_toStrDtype

theorem at_not_mem_tagTexts (h : k.Clean) : ∀ part ∈ k.tagTexts, '@' ∉ part := by
  intro part hpart
  obtain ⟨tag, htag, rfl⟩ := mem_map.mp hpart
  have hclean := h.2 tag htag
  exact at_not_mem_tagText.mpr ⟨hclean.1, hclean.2.2⟩

theorem splitOn_toString (h : k.Clean) : k.toString.splitOn '@' = k.fields ++ k.tagTexts := by
  rw [toString_eq]
  refine splitOn_intercalate '@' ?_ (by simp [fields])
  intro part hpart
  rcases mem_append.mp hpart with hmem | hmem
  · exact at_not_mem_fields h.1 part hmem
  · exact at_not_mem_tagTexts h part hmem

theorem readConfigs_tagTexts (h : k.Clean) (s : List Char) :
    ∃ configs, readConfigs s k.tagTexts = .ok configs ∧ tagsOf configs = k.tags := by
  cases hk : k.tags with
  | none => exact ⟨none, by rw [tagTexts, hk]; rfl, rfl⟩
  | some tags =>
    have hne : tags ≠ [] := ne_nil_of_tagsOf hk
    have hclean : ∀ tag ∈ tags, Tag.Clean tag := by
      intro tag htag
      exact h.2 tag (by rw [hk]; exact htag)
    obtain ⟨configs, hread, hitems⟩ := readTags_map_tagText s Dict.empty
      (fun tag htag => (hclean tag htag).2.1) (nodup_map_fst_of_tagsOf hk)
      (fun _ _ => not_mem_nil)
    refine ⟨some configs, ?_, tagsOf_of_items hne hitems⟩
    obtain ⟨tag, rest, rfl⟩ := exists_cons_of_ne_nil hne
    rw [tagTexts, hk, getD_some, map_cons, readConfigs, ← map_cons, hread]
    rfl

theorem fromString_toString (h : k.Clean) (u : UnicodeDigits) :
    ∃ k', fromString u k.toString = .ok k' ∧ k.Eq k' := by
  obtain ⟨configs, hread, htags⟩ := readConfigs_tagTexts h k.toString
  refine ⟨⟨k.modelName, k.worldSize, k.workerId, k.chunkHash, k.dtype, configs⟩, ?_,
    rfl, rfl, rfl, rfl, rfl, htags.symm⟩
  rw [fromString, splitOn_toString h]
  simp only [fields, cons_append, nil_append, hread, chunkHashHex,
    toInt_formatInt 10 (by decide) (by decide),
    toInt_formatInt 16 (by decide) (by decide), toDtype_toStrDtype]
  rfl

theorem clean_of_fromString {u : UnicodeDigits} {s : List Char} (h : fromString u s = .ok k) :
    k.Clean := by
  have hparts : ∀ part ∈ s.splitOn '@', '@' ∉ part := fun _ hpart => notMem_of_mem_splitOn hpart
  rw [fromString] at h
  split at h
  · next modelName worldSize workerId chunkHash dtype rest heq =>
    rw [heq] at hparts
    obtain ⟨configs, hconfigs, h⟩ := exists_of_bind_eq_ok h
    obtain ⟨_, _, h⟩ := exists_of_bind_eq_ok h
    obtain ⟨_, _, h⟩ := exists_of_bind_eq_ok h
    obtain ⟨_, _, h⟩ := exists_of_bind_eq_ok h
    obtain ⟨_, _, h⟩ := exists_of_bind_eq_ok h
    rw [← ok.inj h]
    exact ⟨hparts modelName (by simp),
      clean_of_readConfigs (fun part hpart => hparts part (by simp [hpart])) hconfigs⟩
  · cases h

theorem Eq.symm_trans {k k' k'' : CacheEngineKey} (h : k.Eq k'') (h' : k'.Eq k'') : k.Eq k' :=
  ⟨h.1.trans h'.1.symm, h.2.1.trans h'.2.1.symm, h.2.2.1.trans h'.2.2.1.symm,
    h.2.2.2.1.trans h'.2.2.2.1.symm, h.2.2.2.2.1.trans h'.2.2.2.2.1.symm,
    h.2.2.2.2.2.trans h'.2.2.2.2.2.symm⟩

theorem Clean.of_eq {k k' : CacheEngineKey} (heq : k.Eq k') (h : k'.Clean) : k.Clean := by
  obtain ⟨hmodel, _, _, _, _, htags⟩ := heq
  rw [Clean, hmodel, htags]
  exact h

end CacheEngineKey

namespace LayerCacheEngineKey

variable {k : LayerCacheEngineKey}

theorem toString_eq (k : LayerCacheEngineKey) :
    k.toString = ['@'].intercalate (k.fields ++ formatInt 10 k.layerId :: k.tagTexts) := by
  rw [CacheEngineKey.fields, cons_append, intercalate_cons_eq_flatMap, toString, tagsText_eq,
    CacheEngineKey.tagTexts]
  simp

theorem at_not_mem_parts (h : k.toCacheEngineKey.Clean) :
    ∀ part ∈ k.fields ++ formatInt 10 k.layerId :: k.tagTexts, '@' ∉ part := by
  intro part hpart
  rcases mem_append.mp hpart with hmem | hmem
  · exact CacheEngineKey.at_not_mem_fields h.1 part hmem
  · rcases mem_cons.mp hmem with rfl | hmem
    · exact at_not_mem_formatInt (by decide) (by decide) _
    · exact CacheEngineKey.at_not_mem_tagTexts h part hmem

theorem splitOn_toString (h : k.toCacheEngineKey.Clean) :
    k.toString.splitOn '@' = k.fields ++ formatInt 10 k.layerId :: k.tagTexts := by
  rw [toString_eq]
  exact splitOn_intercalate '@' (at_not_mem_parts h) (by simp)

theorem fromString_toString (h : k.toCacheEngineKey.Clean) (u : UnicodeDigits) :
    ∃ k', fromString u k.toString = .ok k' ∧
      k.toCacheEngineKey.Eq k'.toCacheEngineKey ∧ k.layerId = k'.layerId := by
  obtain ⟨configs, hread, htags⟩ := CacheEngineKey.readConfigs_tagTexts h k.toString
  refine ⟨⟨⟨k.modelName, k.worldSize, k.workerId, k.chunkHash, k.dtype, configs⟩, k.layerId⟩, ?_,
    ⟨rfl, rfl, rfl, rfl, rfl, htags.symm⟩, rfl⟩
  rw [fromString, splitOn_toString h]
  simp only [CacheEngineKey.fields, cons_append, nil_append, hread,
    CacheEngineKey.chunkHashHex, toInt_formatInt 10 (by decide) (by decide),
    toInt_formatInt 16 (by decide) (by decide), toDtype_toStrDtype]
  rfl

theorem clean_of_fromString {u : UnicodeDigits} {s : List Char} (h : fromString u s = .ok k) :
    k.toCacheEngineKey.Clean := by
  have hparts : ∀ part ∈ s.splitOn '@', '@' ∉ part := fun _ hpart => notMem_of_mem_splitOn hpart
  rw [fromString] at h
  split at h
  · next modelName worldSize workerId chunkHash dtype layerId rest heq =>
    rw [heq] at hparts
    obtain ⟨configs, hconfigs, h⟩ := exists_of_bind_eq_ok h
    obtain ⟨_, _, h⟩ := exists_of_bind_eq_ok h
    obtain ⟨_, _, h⟩ := exists_of_bind_eq_ok h
    obtain ⟨_, _, h⟩ := exists_of_bind_eq_ok h
    obtain ⟨_, _, h⟩ := exists_of_bind_eq_ok h
    obtain ⟨_, _, h⟩ := exists_of_bind_eq_ok h
    rw [← ok.inj h]
    exact ⟨hparts modelName (by simp),
      clean_of_readConfigs (fun part hpart => hparts part (by simp [hpart])) hconfigs⟩
  · cases h

end LayerCacheEngineKey

theorem sixthPart_chunk {k : CacheEngineKey} (h : k.Clean) {part : List Char}
    (hpart : ((strip k.toString).splitOn '@')[5]? = some part) : '%' ∈ part := by
  rw [CacheEngineKey.toString_eq, strip, getElem?_splitOn_stripOf (by decide) (by
    intro part hmem
    rcases mem_append.mp hmem with hmem | hmem
    · exact CacheEngineKey.at_not_mem_fields h.1 part hmem
    · exact CacheEngineKey.at_not_mem_tagTexts h part hmem) 4,
    getElem?_append_right (by simp [CacheEngineKey.fields])] at hpart
  have htext : ∀ {text}, k.tagTexts[4 + 1 - k.fields.length]? = some text → '%' ∈ text := by
    intro text htext
    obtain ⟨tag, _, rfl⟩ := mem_map.mp (mem_of_getElem? htext)
    exact mem_append_right _ mem_cons_self
  split at hpart
  · obtain ⟨text, hget, rfl⟩ := map_eq_some_iff.mp hpart
    exact mem_rdropWhile_of_mem (htext hget) (by decide)
  · exact htext hpart

theorem sixthPart_layer {k : LayerCacheEngineKey} (h : k.toCacheEngineKey.Clean) :
    ((strip k.toString).splitOn '@')[5]? = some (formatInt 10 k.layerId) := by
  have hblank : (formatInt 10 k.layerId).rdropWhile isSpace = formatInt 10 k.layerId := by
    rw [rdropWhile_eq_self_iff]
    intro hne
    rw [isSpace_of_mem_formatInt (by decide) (by decide) (getLast_mem hne)]
    exact Bool.false_ne_true
  rw [LayerCacheEngineKey.toString_eq, strip,
    getElem?_splitOn_stripOf (by decide) (LayerCacheEngineKey.at_not_mem_parts h) 4,
    getElem?_append_right (by simp [CacheEngineKey.fields])]
  simp [CacheEngineKey.fields, hblank]

namespace Key

theorem roundTrips_of_clean (u : UnicodeDigits) {k : Key} (h : k.Clean) : k.RoundTrips u := by
  cases k with
  | chunk k =>
    obtain ⟨k', hread, heq⟩ := CacheEngineKey.fromString_toString h u
    refine ⟨.chunk k', ?_, heq⟩
    rw [parseCacheKey]
    split
    · next part hpart =>
      rw [isDigitStr_eq_false_of_mem (sixthPart_chunk h hpart) (by decide) (by decide),
        if_neg Bool.false_ne_true, toString, hread]
      rfl
    · rw [toString, hread]
      rfl
  | layer k =>
    obtain ⟨k', hread, heq⟩ := LayerCacheEngineKey.fromString_toString h.1 u
    refine ⟨.layer k', ?_, heq⟩
    rw [toString, parseCacheKey, sixthPart_layer h.1]
    dsimp only
    rw [if_pos (isDigitStr_formatInt_ten.mpr h.2), hread]
    rfl

variable {u : UnicodeDigits} {s : List Char}

theorem parseCacheKey_eq_chunk {k : CacheEngineKey} (h : parseCacheKey u s = .ok (.chunk k)) :
    CacheEngineKey.fromString u s = .ok k := by
  have hchunk : (CacheEngineKey.fromString u s).map chunk = .ok (.chunk k) →
      CacheEngineKey.fromString u s = .ok k := by
    intro hmap
    cases hread : CacheEngineKey.fromString u s with
    | error e => rw [hread] at hmap; cases hmap
    | ok k' => rw [hread] at hmap; cases hmap; rfl
  rw [parseCacheKey] at h
  split at h
  · split at h
    · cases hread : LayerCacheEngineKey.fromString u s with
      | error e => rw [hread] at h; cases h
      | ok k' => rw [hread] at h; cases h
    · exact hchunk h
  · exact hchunk h

theorem parseCacheKey_eq_layer {k : LayerCacheEngineKey} (h : parseCacheKey u s = .ok (.layer k)) :
    LayerCacheEngineKey.fromString u s = .ok k ∧
      ∃ part, ((strip s).splitOn '@')[5]? = some part ∧ isDigitStr u part = true := by
  have hchunk : (CacheEngineKey.fromString u s).map chunk ≠ .ok (.layer k) := by
    intro hmap
    cases hread : CacheEngineKey.fromString u s with
    | error e => rw [hread] at hmap; cases hmap
    | ok k' => rw [hread] at hmap; cases hmap
  rw [parseCacheKey] at h
  split at h
  · next part hpart =>
    split at h
    · next hdigit =>
      refine ⟨?_, part, hpart, hdigit⟩
      cases hread : LayerCacheEngineKey.fromString u s with
      | error e => rw [hread] at h; cases h
      | ok k' => rw [hread] at h; cases h; rfl
    · exact absurd h hchunk
  · exact absurd h hchunk

theorem clean_of_roundTrips {k : Key} (h : k.RoundTrips u) : k.Clean := by
  obtain ⟨k', hparse, heq⟩ := h
  cases k with
  | chunk k =>
    cases k' with
    | chunk k' =>
      exact .of_eq heq (CacheEngineKey.clean_of_fromString (parseCacheKey_eq_chunk hparse))
    | layer k' => cases heq
  | layer k =>
    cases k' with
    | chunk k' => cases heq
    | layer k' =>
      obtain ⟨hread, part, hpart, hdigit⟩ := parseCacheKey_eq_layer hparse
      have hclean : k.toCacheEngineKey.Clean :=
        .of_eq heq.1 (LayerCacheEngineKey.clean_of_fromString hread)
      refine ⟨hclean, ?_⟩
      rw [toString, sixthPart_layer hclean] at hpart
      rw [← some.inj hpart] at hdigit
      exact isDigitStr_formatInt_ten.mp hdigit

theorem Eq.symm_trans {k k' k'' : Key} (h : k.Eq k'') (h' : k'.Eq k'') : k.Eq k' := by
  cases k'' with
  | chunk k'' =>
    cases k with
    | layer k => cases h
    | chunk k =>
      cases k' with
      | layer k' => cases h'
      | chunk k' => exact CacheEngineKey.Eq.symm_trans h h'
  | layer k'' =>
    cases k with
    | chunk k => cases h
    | layer k =>
      cases k' with
      | chunk k' => cases h'
      | layer k' => exact ⟨CacheEngineKey.Eq.symm_trans h.1 h'.1, h.2.trans h'.2.symm⟩

theorem eq_of_toString_eq {k k' : Key} (h : k.RoundTrips u) (h' : k'.RoundTrips u)
    (heq : k.toString = k'.toString) : k.Eq k' := by
  obtain ⟨parsed, hparse, hk⟩ := h
  obtain ⟨parsed', hparse', hk'⟩ := h'
  rw [heq, hparse'] at hparse
  rw [← ok.inj hparse] at hk
  exact Eq.symm_trans hk hk'

theorem roundTrips_iff_clean (u : UnicodeDigits) :
    (∀ k : Key, k.RoundTrips u ↔ k.Clean) ∧
      ∀ k k' : Key, k.Clean → k'.Clean → k.toString = k'.toString → k.Eq k' := by
  refine ⟨fun k => ⟨clean_of_roundTrips, roundTrips_of_clean u⟩, ?_⟩
  intro k k' hclean hclean' heq
  exact eq_of_toString_eq (roundTrips_of_clean u hclean) (roundTrips_of_clean u hclean') heq

def asciiOnly : UnicodeDigits := ⟨fun _ => none, fun _ => false⟩

def layerLikeTag : CacheEngineKey :=
  ⟨['m'], 1, 0, 255, .float16, some (Dict.empty.set (tagPrefix ++ ['5', '@', 'x']) ['y'])⟩

def fifthLayer : LayerCacheEngineKey :=
  ⟨⟨['m'], 1, 0, 255, .float16, some (Dict.empty.set (tagPrefix ++ ['x']) ['y'])⟩, 5⟩

def fifthLayerPriority : LayerCacheEngineKey :=
  ⟨⟨['m'], 1, 0, 255, .float16,
    some ((Dict.empty.set (tagPrefix ++ ['x']) ['y']).set ['p'] ['1'])⟩, 5⟩

theorem roundTrips_iff_clean_fifthLayer :
    (layer fifthLayer).RoundTrips asciiOnly ∧
      (layer fifthLayer).Eq (.layer fifthLayerPriority) := by
  have h := roundTrips_iff_clean asciiOnly
  have hclean : (layer fifthLayer).Clean := ⟨by decide, by decide⟩
  have hclean' : (layer fifthLayerPriority).Clean := ⟨by decide, by decide⟩
  exact ⟨(h.1 _).mpr hclean, h.2 _ _ hclean hclean' (by decide)⟩

theorem not_roundTrips_layerLikeTag :
    ¬ (chunk layerLikeTag).RoundTrips asciiOnly ∧
      (chunk layerLikeTag).toString = (layer fifthLayer).toString ∧
      ¬ (chunk layerLikeTag).Eq (.layer fifthLayer) := by
  have hparse : parseCacheKey asciiOnly (chunk layerLikeTag).toString =
      .ok (.layer fifthLayer) := by rfl
  refine ⟨?_, by decide, not_false⟩
  rintro ⟨k', hk', heq⟩
  rw [hparse] at hk'
  rw [← ok.inj hk'] at heq
  exact heq

end Key

end LMCache.Utils
