import LMCache.RawBlock.Backend
import LMCache.Utils.KeyIdentity

namespace LMCache

open Utils

namespace Protocol.MemoryFormat

def name : MemoryFormat → List Char
  | .undefined => "UNDEFINED".toList
  | .kv2ltd => "KV_2LTD".toList
  | .kvT2d => "KV_T2D".toList
  | .kv2td => "KV_2TD".toList
  | .binary => "BINARY".toList
  | .binaryBuffer => "BINARY_BUFFER".toList
  | .kvMlaFmt => "KV_MLA_FMT".toList

def ofName (s : List Char) : MemoryFormat :=
  ([.undefined, .kv2ltd, .kvT2d, .kv2td, .binary, .binaryBuffer, .kvMlaFmt].find?
    fun fmt => fmt.name == s).getD .undefined

theorem ofName_name (fmt : MemoryFormat) : ofName fmt.name = fmt := by
  cases fmt <;> decide

end Protocol.MemoryFormat

namespace RawBlock

open Protocol Text

structure ManifestEntry where
  offset : ℕ
  size : ℕ
  shape : List ℤ
  dtype : List Char
  fmt : List Char
  cachedPositions : Option (List ℤ)

structure Manifest where
  devicePath : List Char
  capacityBytes : ℕ
  blockAlign : ℕ
  headerBytes : ℕ
  slotBytes : ℕ
  nextSlot : ℕ
  freeSlots : List ℕ
  lruKeys : List (List Char)
  entries : Dict (List Char) ManifestEntry

def cacheKeys (u : UnicodeDigits) : KeyCodec KeyIdentity where
  toString := KeyIdentity.toString
  fromString := KeyIdentity.fromString u
  dtype := KeyIdentity.dtype
  chunkHash := KeyIdentity.chunkHash

section Codec

variable {K : Type} (codec : KeyCodec K)

def saveEntry (key : K) (entry : BlockEntry) : ManifestEntry where
  offset := entry.offset
  size := entry.info.size
  shape := entry.info.shape
  dtype := (codec.dtype key).toStrDtype
  fmt := entry.info.fmt.name
  cachedPositions := entry.info.cachedPositions

def loadEntry (key : K) (e : ManifestEntry) : BlockEntry :=
  ⟨e.offset, e.size, ⟨e.size, e.shape, codec.dtype key, e.cachedPositions, .ofName e.fmt⟩⟩

def saveItem (item : K × BlockEntry) : List Char × ManifestEntry :=
  (codec.toString item.1, saveEntry codec item.1 item.2)

def loadItem (item : List Char × ManifestEntry) : Option (K × BlockEntry) :=
  (codec.fromString item.1).map fun key => (key, loadEntry codec key item.2)

def saveManifest (config : RawBlockConfig) (snapshot : Snapshot K) : Manifest where
  devicePath := config.devicePath
  capacityBytes := snapshot.capacityBytes
  blockAlign := config.blockAlign
  headerBytes := config.headerBytes
  slotBytes := config.slotBytes
  nextSlot := snapshot.nextSlot
  freeSlots := snapshot.freeSlots
  lruKeys := snapshot.lru.map codec.toString
  entries := Dict.empty.setAll (snapshot.index.items.map (saveItem codec))

def Readable (key : K) (entry : BlockEntry) : Prop :=
  codec.fromString (codec.toString key) = some key ∧ entry.info.dtype = codec.dtype key

instance [DecidableEq K] (key : K) (entry : BlockEntry) : Decidable (Readable codec key entry) :=
  inferInstanceAs (Decidable (_ ∧ _))

variable {codec}

theorem loadEntry_saveEntry {key : K} {entry : BlockEntry}
    (hdtype : entry.info.dtype = codec.dtype key) (hsize : entry.size = entry.info.size) :
    loadEntry codec key (saveEntry codec key entry) = entry := by
  obtain ⟨offset, size, info⟩ := entry
  simp only at hdtype hsize
  simp only [loadEntry, saveEntry, MemoryFormat.ofName_name, ← hdtype, hsize]

theorem loadItem_saveItem {key : K} {entry : BlockEntry} (h : Readable codec key entry)
    (hsize : entry.size = entry.info.size) :
    loadItem codec (saveItem codec (key, entry)) = some (key, entry) := by
  simp only [loadItem, saveItem, h.1, Option.map_some, loadEntry_saveEntry h.2 hsize]

variable [DecidableEq K] (codec)

def restoreIndex (manifest : Manifest) : Dict K BlockEntry :=
  Dict.empty.setAll (manifest.entries.items.filterMap (loadItem codec))

def restoreLru (manifest : Manifest) (index : Dict K BlockEntry) : List K :=
  if manifest.lruKeys = [] then index.keys
  else
    (manifest.lruKeys.filterMap codec.fromString).foldl
      (fun lru key => if index.contains key = true ∧ key ∉ lru then lru ++ [key] else lru) []

variable {codec}

theorem restoreIndex_saveManifest {config : RawBlockConfig} {snapshot : Snapshot K}
    (hreadable : ∀ key entry, snapshot.index.get? key = some entry → Readable codec key entry)
    (hsize : ∀ key entry, snapshot.index.get? key = some entry → entry.size = entry.info.size) :
    restoreIndex codec (saveManifest codec config snapshot) = snapshot.index := by
  have hitem : ∀ item ∈ snapshot.index.items,
      codec.fromString (codec.toString item.1) = some item.1 ∧
        loadItem codec (saveItem codec item) = some item := by
    intro item hmem
    have hget := (Dict.get?_eq_some_iff snapshot.index item.1 item.2).mpr hmem
    exact ⟨(hreadable item.1 item.2 hget).1,
      loadItem_saveItem (hreadable item.1 item.2 hget) (hsize item.1 item.2 hget)⟩
  have htexts : ((snapshot.index.items.map (saveItem codec)).map Prod.fst).Nodup := by
    have hnames : (snapshot.index.items.map (saveItem codec)).map Prod.fst =
        (snapshot.index.items.map Prod.fst).map codec.toString := by
      rw [List.map_map, List.map_map]
      rfl
    rw [hnames]
    refine List.Nodup.map_on ?_ snapshot.index.nodup
    intro key hkey key' hkey' heq
    obtain ⟨item, hitem₁, rfl⟩ := List.mem_map.mp hkey
    obtain ⟨item', hitem₂, rfl⟩ := List.mem_map.mp hkey'
    have hparse := (hitem item hitem₁).1
    rw [heq, (hitem item' hitem₂).1] at hparse
    exact (Option.some.inj hparse).symm
  have hsaved : (saveManifest codec config snapshot).entries.items =
      snapshot.index.items.map (saveItem codec) := Dict.items_setAll (d := Dict.empty) htexts
  have hloaded : (snapshot.index.items.map (saveItem codec)).filterMap (loadItem codec) =
      snapshot.index.items := by
    rw [List.filterMap_map]
    exact (List.filterMap_congr fun item hmem => (hitem item hmem).2).trans List.filterMap_some
  refine Dict.eq_of_items ?_
  rw [restoreIndex, hsaved, hloaded]
  exact Dict.items_setAll (d := Dict.empty) snapshot.index.nodup

end Codec

namespace RawBlockState

variable {K : Type} [DecidableEq K] {config : RawBlockConfig} (codec : KeyCodec K)
  (s : RawBlockState K config)

def crash : RawBlockState K config :=
  { RawBlockState.start config s.device with
    manifest := s.manifest
    stored := s.stored
    deviceWrites := s.deviceWrites
    returned := s.returned
    evictions := s.evictions }

def loadManifest (manifest : Manifest) : RawBlockState K config :=
  if manifest.devicePath ≠ [] ∧ manifest.devicePath ≠ config.devicePath then s
  else if manifest.slotBytes ≠ config.slotBytes then s
  else
    { s with
      capacityBytes := manifest.capacityBytes
      nextSlot := manifest.nextSlot
      freeSlots := manifest.freeSlots
      index := restoreIndex codec manifest
      lru := restoreLru codec manifest (restoreIndex codec manifest) }

def restart : RawBlockState K config :=
  match s.manifest with
  | none => s.crash
  | some snapshot => s.crash.loadManifest codec (saveManifest codec config snapshot)

end RawBlockState

end RawBlock

end LMCache
