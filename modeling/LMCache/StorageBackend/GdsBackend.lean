import LMCache.Fidelity.Int8Codec
import LMCache.Foundations.Cells
import LMCache.Foundations.Execution
import LMCache.Utils.KeyIdentity

namespace LMCache

open Utils Protocol ByteDevice Cells

structure GdsLayout where
  shape : List ℕ
  dtype : TorchDtype
  fmt : MemoryFormat
deriving DecidableEq

structure GdsMetadata where
  dtype : String
  shape : List ℕ
  dataOffsets : ℕ × ℕ
  fmt : ℤ
  lmcacheVersion : String

structure GdsPath where
  l1Dir : List Char
  l2Dir : List Char
  name : List Char
deriving DecidableEq

structure GdsEntry where
  path : GdsPath
  layout : GdsLayout

structure GdsPut where
  key : KeyIdentity
  layout : GdsLayout
  bytes : List UInt8
deriving DecidableEq

-- put says whose file it is; content is what stands behind the metadata
structure GdsFile where
  content : List UInt8
  put : GdsPut

inductive GdsSaveStage where
  | submitted
  | renamed (path : GdsPath) (metadata : GdsMetadata)
  | inserted (path : GdsPath) (metadata : GdsMetadata)
  | done
  | failed

structure GdsSave where
  put : GdsPut
  address : ℕ
  stage : GdsSaveStage

def GdsSave.Unindexed (save : GdsSave) : Prop :=
  save.stage ≠ .done ∧ ∀ path metadata, save.stage ≠ .inserted path metadata

structure GdsGet where
  key : KeyIdentity
  pooled : Bool
  entry : GdsEntry
  ended : Bool

structure GdsConfig where
  dataPtr : ℕ
  hasBasePointer : Bool
  useCufile : Bool
  jsonLength : GdsMetadata → ℕ
  digits : UnicodeDigits

inductive GdsReply where
  | read (bytes : ℕ)
  | negative
  | raises
deriving DecidableEq

inductive GdsEvent where
  | submit (id : ℕ) (put : GdsPut) (address : ℕ)
  | save (id : ℕ) (gpu : ℕ → UInt8) (written : Option ℕ)
  | insert (id : ℕ)
  | saveMetadata (id : ℕ) (renames : Bool)
  | lookup (id : ℕ) (key : KeyIdentity) (pooled : Bool)
  | load (id : ℕ) (gpu : ℕ → UInt8) (address : Option ℕ) (reply : GdsReply)
  | contains (key : KeyIdentity)
  | restart (listing : List GdsPath)

structure GdsBackend where
  hotCache : KeyIdentity → Option GdsEntry
  putTasks : Finset KeyIdentity
  files : GdsPath → Option GdsFile
  metadataFiles : GdsPath → Option GdsMetadata
  saves : ℕ → Option GdsSave
  gets : ℕ → Option GdsGet
  puts : List GdsPut
  returned : List (Bool × GdsPut)

namespace GdsLayout

def nbytes (layout : GdsLayout) : ℕ := layout.shape.prod * layout.dtype.itemsize

def torchDtypes : TorchDtype → Option String
  | .float16 => some "F16"
  | .bfloat16 => some "BF16"
  | .float32 => some "F32"
  | .float64 => some "F64"
  | .uint8 => some "U8"
  | .int8 => some "I8"
  | .int16 => some "I16"
  | .int32 => some "I32"
  | .int64 => some "I64"
  | .float8E4m3fn => some "F8E4M3FN"
  | .float8E5m2 => some "F8E5M2"
  | .bool | .float8E4m3fnuz | .float8E5m2fnuz => none

def torchDtypesInverse (name : String) : Option TorchDtype :=
  TorchDtype.all.find? fun dtype => torchDtypes dtype == some name

def packMetadata (layout : GdsLayout) : Option GdsMetadata :=
  (torchDtypes layout.dtype).map fun name =>
    ⟨name, layout.shape, (0, layout.nbytes), layout.fmt.value, "1"⟩

def readMetadata (metadata : GdsMetadata) : Option GdsLayout :=
  if metadata.lmcacheVersion = "1" then
    match MemoryFormat.ofValue metadata.fmt, torchDtypesInverse metadata.dtype with
    | .ok fmt, some dtype => some ⟨metadata.shape, dtype, fmt⟩
    | _, _ => none
  else none

theorem torchDtypesInverse_of_torchDtypes {dtype : TorchDtype} {name : String}
    (h : torchDtypes dtype = some name) : torchDtypesInverse name = some dtype := by
  cases dtype <;> first | (obtain rfl := Option.some.inj h; decide) | cases h

theorem readMetadata_of_packMetadata {layout : GdsLayout} {metadata : GdsMetadata}
    (h : layout.packMetadata = some metadata) : readMetadata metadata = some layout := by
  obtain ⟨name, hname, rfl⟩ := Option.map_eq_some_iff.mp h
  rw [readMetadata, if_pos rfl]
  simp only [MemoryFormat.ofValue_value, torchDtypesInverse_of_torchDtypes hname]

end GdsLayout

namespace GdsPath

def keyToPath (key : KeyIdentity) : Option GdsPath :=
  let hash := Numeral.formatInt 10 key.chunkHash
  if '_' ∈ key.toString then none
  else
    some ⟨hash.take 2, (hash.take 4).drop 2, key.toString.map fun c => if c = '/' then '_' else c⟩

def scannedKey (digits : UnicodeDigits) (path : GdsPath) : Option KeyIdentity :=
  if path.l1Dir.length = 2 ∧ path.l2Dir.length = 2 then
    KeyIdentity.fromString digits (path.name.map fun c => if c = '_' then '/' else c)
  else none

structure Storable (key : KeyIdentity) : Prop where
  layerId : key.layerId = none
  clean : key.chunkKey.Clean
  noUnderscore : '_' ∉ key.toString
  hash : 4 ≤ (Numeral.formatInt 10 key.chunkHash).length

variable {path : GdsPath}

theorem scannedKey_of_keyToPath {key : KeyIdentity} (h : Storable key)
    (hpath : keyToPath key = some path) (digits : UnicodeDigits) :
    scannedKey digits path = some key := by
  have hlength := h.hash
  rw [keyToPath, if_neg h.noUnderscore] at hpath
  obtain rfl := Option.some.inj hpath
  have hname : (key.toString.map fun c => if c = '/' then '_' else c).map
      (fun c => if c = '_' then '/' else c) = key.toString := by
    rw [List.map_map]
    refine (List.map_congr_left fun c hc => ?_).trans (List.map_id _)
    have hne : c ≠ '_' := fun heq => h.noUnderscore (heq ▸ hc)
    by_cases hslash : c = '/' <;> simp [hslash, hne]
  rw [scannedKey, if_pos (by simp only [List.length_take, List.length_drop]; omega), hname]
  exact KeyIdentity.fromString_toString h.layerId h.clean digits

theorem eq_of_keyToPath {key key' : KeyIdentity} (h : Storable key) (h' : Storable key')
    (hpath : keyToPath key = some path) (hpath' : keyToPath key' = some path)
    (digits : UnicodeDigits) : key = key' :=
  Option.some.inj ((scannedKey_of_keyToPath h hpath digits).symm.trans
    (scannedKey_of_keyToPath h' hpath' digits))

end GdsPath

namespace GdsBackend

open Execution Function GdsPath

variable (config : GdsConfig) (s : GdsBackend)

def saveAddress (address : ℕ) : ℕ :=
  let addr := if config.hasBasePointer then config.dataPtr else config.dataPtr + address
  let devOffset := if config.hasBasePointer then address else 0
  -- the mapped copy takes the offset it was called with
  addr + if config.useCufile then devOffset else address

def loadAddress (address : ℕ) : ℕ :=
  let addr := if config.hasBasePointer then config.dataPtr else config.dataPtr + address
  addr + if config.hasBasePointer then address else 0

def saveGds (layout : GdsLayout) (address : ℕ) (gpu : ℕ → UInt8) (written : Option ℕ) :
    Option (GdsMetadata × List UInt8) := do
  let metadata ← layout.packMetadata
  let n ← written.filter fun _ => config.jsonLength metadata ≤ 4088
  some (metadata, read gpu (saveAddress config address)
    (if config.useCufile then min n layout.nbytes else layout.nbytes))

def readEntry (path : GdsPath) : Option (KeyIdentity × GdsEntry) := do
  let key ← scannedKey config.digits path
  let layout ← s.metadataFiles path >>= GdsLayout.readMetadata
  some (key, ⟨path, layout⟩)

-- a pooled get allocates by shape and dtype alone
def allocatedLayout (pooled : Bool) (layout : GdsLayout) : GdsLayout :=
  if pooled then { layout with fmt := .kv2ltd } else layout

def loadBytes (get : GdsGet) (gpu : ℕ → UInt8) (address : ℕ) : GdsReply → Option GdsPut
  | .read n => do
    let file ← s.files get.entry.path
    let layout := allocatedLayout get.pooled get.entry.layout
    let bytes := file.content.take (if config.useCufile then min n layout.nbytes else layout.nbytes)
    if (if config.useCufile then bytes.length else layout.nbytes) = layout.nbytes then
      some ⟨get.key, layout, read
        (write gpu (loadAddress config address) bytes) (config.dataPtr + address)
        layout.nbytes⟩
    else none
  | _ => none

def exec (s : GdsBackend) : GdsEvent → GdsBackend
  | .submit id put address =>
    { s with
      putTasks := insert put.key s.putTasks
      puts := put :: s.puts
      saves := update s.saves id (some ⟨put, address, .submitted⟩) }
  | .save id gpu written =>
    match s.saves id with
    | some ⟨put, address, .submitted⟩ =>
      match keyToPath put.key, saveGds config put.layout address gpu written with
      | some path, some (metadata, content) =>
        { s with
          files := update s.files path (some ⟨content, put⟩)
          saves := update s.saves id (some ⟨put, address, .renamed path metadata⟩) }
      | _, _ =>
        { s with saves := update s.saves id (some ⟨put, address, .failed⟩) }
    | _ => s
  | .insert id =>
    match s.saves id with
    | some ⟨put, address, .renamed path metadata⟩ =>
      { s with
        hotCache := update s.hotCache put.key (some ⟨path, put.layout⟩)
        putTasks := s.putTasks.erase put.key
        saves := update s.saves id (some ⟨put, address, .inserted path metadata⟩) }
    | _ => s
  | .saveMetadata id renames =>
    match s.saves id with
    | some ⟨put, address, .inserted path metadata⟩ =>
      { s with
        metadataFiles :=
          if renames then update s.metadataFiles path (some metadata) else s.metadataFiles
        saves := update s.saves id (some ⟨put, address, .done⟩) }
    | _ => s
  | .lookup id key pooled =>
    match s.hotCache key with
    | some entry =>
      { s with gets := update s.gets id (some ⟨key, pooled, entry, false⟩) }
    | none => s
  | .load id gpu address reply =>
    match s.gets id with
    | some get =>
      if get.ended then s
      else
        { s with
          gets := update s.gets id (some { get with ended := true })
          hotCache :=
            if reply = .negative ∧ address.isSome then update s.hotCache get.key none
            else s.hotCache
          returned := (address.bind (loadBytes config s get gpu · reply)).toList.map
            (get.pooled, ·) ++ s.returned }
    | none => s
  | .contains key =>
    match s.hotCache key, keyToPath key with
    | none, some path =>
      match s.metadataFiles path >>= GdsLayout.readMetadata with
      | some layout => { s with hotCache := update s.hotCache key (some ⟨path, layout⟩) }
      | none => s
    | _, _ => s
  | .restart listing =>
    { s with
      hotCache := collect (listing.filterMap (readEntry config s))
      putTasks := ∅
      saves := fun _ => none
      gets := fun _ => none }

def Sound (s : GdsBackend) : GdsEvent → Prop
  | .submit id put _ =>
    s.saves id = none ∧ Storable put.key ∧ put.bytes.length = put.layout.nbytes ∧
      ∀ other ∈ s.puts, other.key = put.key → other.layout = put.layout
  | .save id gpu _ => ∀ save, s.saves id = some save →
      read gpu (config.dataPtr + save.address) save.put.layout.nbytes = save.put.bytes
  | .contains key => Storable key
  | .restart listing => ∀ path, path ∈ listing ↔ s.metadataFiles path ≠ none
  | _ => True

def Stored (key : KeyIdentity) (entry : GdsEntry) : Prop :=
  s.files entry.path ≠ none ∧ keyToPath key = some entry.path ∧
    ∃ put ∈ s.puts, put.key = key ∧ put.layout = entry.layout

-- the data file is in place from the first rename on
def Tracked (save : GdsSave) : Prop :=
  save.put ∈ s.puts ∧ ∀ path metadata,
    save.stage = .renamed path metadata ∨ save.stage = .inserted path metadata →
      save.put.layout.packMetadata = some metadata ∧ keyToPath save.put.key = some path ∧
        s.files path ≠ none

structure Inv : Prop where
  puts : ∀ put ∈ s.puts, Storable put.key ∧ put.bytes.length = put.layout.nbytes
  layouts : ∀ put ∈ s.puts, ∀ other ∈ s.puts, other.key = put.key → other.layout = put.layout
  files : ∀ path file, s.files path = some file → file.put ∈ s.puts ∧
    keyToPath file.put.key = some path ∧ ∃ n, file.content = file.put.bytes.take n ∧
      (config.useCufile = false → n = file.put.layout.nbytes)
  metadata : ∀ path metadata, s.metadataFiles path = some metadata → s.files path ≠ none ∧
    ∃ put ∈ s.puts, keyToPath put.key = some path ∧
      put.layout.packMetadata = some metadata
  index : ∀ key entry, s.hotCache key = some entry → s.Stored key entry
  gets : ∀ id get, s.gets id = some get → s.Stored get.key get.entry
  saves : ∀ id save, s.saves id = some save → s.Tracked save
  putTasks : ∀ key ∈ s.putTasks, ∃ id save, s.saves id = some save ∧ save.put.key = key ∧
    save.Unindexed
  returned : ∀ obj ∈ s.returned, ∃ put ∈ s.puts,
    obj.2 = { put with layout := allocatedLayout obj.1 put.layout }

open List Option

variable {config : GdsConfig} {s s' : GdsBackend} {key : KeyIdentity} {entry : GdsEntry}
  {put : GdsPut} {path : GdsPath} {layout : GdsLayout} {content : List UInt8} {gpu : ℕ → UInt8}
  {id address : ℕ} {written : Option ℕ}

theorem Stored.mono (hfiles : ∀ path, s.files path ≠ none → s'.files path ≠ none)
    (hputs : ∀ put ∈ s.puts, put ∈ s'.puts) (h : s.Stored key entry) : s'.Stored key entry :=
  have ⟨put, hput, hrest⟩ := h.2.2
  ⟨hfiles _ h.1, h.2.1, put, hputs put hput, hrest⟩

theorem Tracked.mono {save : GdsSave} (hfiles : ∀ path, s.files path ≠ none → s'.files path ≠ none)
    (hputs : ∀ put ∈ s.puts, put ∈ s'.puts) (h : s.Tracked save) : s'.Tracked save :=
  ⟨hputs _ h.1, fun path metadata hstage =>
    (h.2 path metadata hstage).imp_right (And.imp_right (hfiles path))⟩

theorem inv_submit (h : Inv config s) (hsound : Sound config s (.submit id put address)) :
    Inv config (exec config s (.submit id put address)) := by
  obtain ⟨hfresh, hkey, hbytes, hlayout⟩ := hsound
  have hputs : ∀ other ∈ s.puts, other ∈ put :: s.puts := fun _ => mem_cons_of_mem put
  have hfiles : ∀ path, s.files path ≠ none → s.files path ≠ none := fun _ h => h
  exact
    { puts := forall_mem_cons.mpr ⟨⟨hkey, hbytes⟩, h.puts⟩
      layouts := by
        refine forall_mem_cons.mpr ⟨forall_mem_cons.mpr ⟨fun _ => rfl, hlayout⟩, ?_⟩
        exact fun one hone => forall_mem_cons.mpr
          ⟨fun heq => (hlayout one hone heq.symm).symm, h.layouts one hone⟩
      files := fun path file hfile => (h.files path file hfile).imp_left (hputs _)
      metadata := fun path metadata hmetadata =>
        have ⟨hfile, other, hother, hrest⟩ := h.metadata path metadata hmetadata
        ⟨hfile, other, hputs other hother, hrest⟩
      index := fun key entry hentry => (h.index key entry hentry).mono hfiles hputs
      gets := fun id get hget => (h.gets id get hget).mono hfiles hputs
      saves := fun id save hsave => by
        rcases update_eq_some hsave with ⟨_, rfl⟩ | ⟨_, hold⟩
        · exact ⟨mem_cons_self, fun _ _ hstage => by simp at hstage⟩
        · exact (h.saves id save hold).mono hfiles hputs
      putTasks := fun key hkey => by
        rcases Finset.mem_insert.mp hkey with rfl | hold
        · exact ⟨id, _, update_self .., rfl, by simp [GdsSave.Unindexed]⟩
        · obtain ⟨other, save, hsave, hrest⟩ := h.putTasks key hold
          refine ⟨other, save, ?_, hrest⟩
          rw [← hsave]
          exact update_of_ne (fun heq => by rw [← heq, hsave] at hfresh; cases hfresh) _ _
      returned := fun obj hobj =>
        have ⟨other, hother, heq⟩ := h.returned obj hobj
        ⟨other, hputs other hother, heq⟩ }

theorem inv_file (h : Inv config s) {n : ℕ} (hput : put ∈ s.puts)
    (hpath : keyToPath put.key = some path) (hcontent : content = put.bytes.take n)
    (hfull : config.useCufile = false → n = put.layout.nbytes) :
    Inv config { s with files := update s.files path (some ⟨content, put⟩) } := by
  have hfiles : ∀ other, s.files other ≠ none →
      update s.files path (some ⟨content, put⟩) other ≠ none := fun other hother hnone =>
    hother (update_eq_none hnone).2
  exact
    { h with
      files := fun other file hfile => by
        rcases update_eq_some hfile with ⟨rfl, rfl⟩ | ⟨_, hold⟩
        · exact ⟨hput, hpath, n, hcontent, hfull⟩
        · exact h.files other file hold
      metadata := fun other metadata hmetadata =>
        (h.metadata other metadata hmetadata).imp_left (hfiles other)
      index := fun key entry hentry => (h.index key entry hentry).mono hfiles fun _ h => h
      gets := fun id get hget => (h.gets id get hget).mono hfiles fun _ h => h
      saves := fun id save hsave => (h.saves id save hsave).mono hfiles fun _ h => h }

theorem inv_index (h : Inv config s) (hentry : s.Stored key entry) :
    Inv config { s with hotCache := update s.hotCache key (some entry) } :=
  { h with
    index := fun other found hfound => by
      rcases update_eq_some hfound with ⟨rfl, rfl⟩ | ⟨_, hold⟩
      · exact hentry
      · exact h.index other found hold }

theorem inv_advance (h : Inv config s) {save save' : GdsSave} (hsave : s.saves id = some save)
    (htracked : s.Tracked save') (hflight : save.Unindexed → save.put.key ∈ s.putTasks →
      save'.put.key = save.put.key ∧ save'.Unindexed) :
    Inv config { s with saves := update s.saves id (some save') } :=
  { h with
    saves := fun other found hfound => by
      rcases update_eq_some hfound with ⟨_, rfl⟩ | ⟨_, hold⟩
      · exact htracked
      · exact h.saves other found hold
    putTasks := fun key hkey => by
      obtain ⟨other, found, hfound, rfl, hin⟩ := h.putTasks key hkey
      by_cases heq : other = id
      · obtain rfl := some.inj (hsave.symm.trans (heq ▸ hfound))
        exact ⟨id, save', update_self .., hflight hin hkey⟩
      · exact ⟨other, found, (update_of_ne heq ..).trans hfound, rfl, hin⟩ }

theorem saveGds_eq_some (hmode : config.useCufile = true ∨ config.hasBasePointer = true)
    {bytes : List UInt8} (hgpu : read gpu (config.dataPtr + address) layout.nbytes = bytes)
    {metadata : GdsMetadata}
    (h : saveGds config layout address gpu written = some (metadata, content)) :
    layout.packMetadata = some metadata ∧ ∃ n, content = bytes.take n ∧
      (config.useCufile = false → n = layout.nbytes) := by
  have haddress : saveAddress config address = config.dataPtr + address := by
    rw [saveAddress]
    rcases hmode with hmode | hmode
    · cases config.hasBasePointer <;> simp [hmode]
    · simp [hmode]
  simp only [saveGds, bind_eq_bind, bind_eq_some_iff, some.injEq,
    Prod.mk.injEq, haddress] at h
  obtain ⟨_, hpack, n, _, rfl, rfl⟩ := h
  refine ⟨hpack, if config.useCufile then min n layout.nbytes else layout.nbytes, ?_,
    fun h => if_neg (ne_of_eq_of_ne h Bool.false_ne_true)⟩
  rw [← hgpu, take_read]
  split <;> omega

theorem inv_save (h : Inv config s) (hmode : config.useCufile = true ∨ config.hasBasePointer = true)
    (hsound : Sound config s (.save id gpu written)) :
    Inv config (exec config s (.save id gpu written)) := by
  rw [exec]
  split
  next put address hsave =>
    split
    next path _ content hpath hsaved =>
      obtain ⟨hput, hold⟩ := h.saves id _ hsave
      obtain ⟨hpack, n, hcontent, hfull⟩ := saveGds_eq_some hmode (hsound _ hsave) hsaved
      refine inv_advance (inv_file h hput hpath hcontent hfull) hsave
        ⟨hput, fun other metadata hstage => ?_⟩ fun _ _ => ⟨rfl, by simp [GdsSave.Unindexed]⟩
      obtain ⟨rfl, rfl⟩ : path = other ∧ _ = metadata := by simpa using hstage
      exact ⟨hpack, hpath, by simp⟩
    · exact inv_advance h hsave ⟨(h.saves id _ hsave).1, fun _ _ hstage => by simp at hstage⟩
        fun _ _ => ⟨rfl, by simp [GdsSave.Unindexed]⟩
  · exact h

theorem inv_insert (h : Inv config s) (id : ℕ) : Inv config (exec config s (.insert id)) := by
  rw [exec]
  split
  next put address path metadata hsave =>
    obtain ⟨hput, hstage⟩ := h.saves id _ hsave
    obtain ⟨hpack, hpath, hfile⟩ := hstage path metadata (.inl rfl)
    have herased : Inv config { s with putTasks := s.putTasks.erase put.key } :=
      { h with putTasks := fun key hkey => h.putTasks key (Finset.mem_of_mem_erase hkey) }
    refine inv_advance (inv_index herased ⟨hfile, hpath, put, hput, rfl, rfl⟩) hsave
      ⟨hput, fun _ _ hinserted => ?_⟩ fun _ hkey => absurd hkey (Finset.notMem_erase _ _)
    obtain ⟨rfl, rfl⟩ : path = _ ∧ metadata = _ := by simpa using hinserted
    exact ⟨hpack, hpath, hfile⟩
  · exact h

theorem inv_saveMetadata (h : Inv config s) (id : ℕ) (renames : Bool) :
    Inv config (exec config s (.saveMetadata id renames)) := by
  rw [exec]
  split
  next put address path metadata hsave =>
    obtain ⟨hput, hstage⟩ := h.saves id _ hsave
    obtain ⟨hpack, hpath, hfile⟩ := hstage path metadata (.inr rfl)
    have hdone : Inv config { s with saves := update s.saves id (some ⟨put, address, .done⟩) } :=
      inv_advance h hsave ⟨hput, fun _ _ hstage => by simp at hstage⟩
        fun hin => absurd rfl (hin.2 path metadata)
    exact
      { hdone with
        metadata := fun other found hfound => by
          dsimp only at hfound
          split at hfound
          · rcases update_eq_some hfound with ⟨rfl, rfl⟩ | ⟨_, hold⟩
            · exact ⟨hfile, put, hput, hpath, hpack⟩
            · exact h.metadata other found hold
          · exact h.metadata other found hfound }
  · exact h

theorem inv_lookup (h : Inv config s) (id : ℕ) (key : KeyIdentity) (pooled : Bool) :
    Inv config (exec config s (.lookup id key pooled)) := by
  rw [exec]
  split
  next entry hentry =>
    exact
      { h with
        gets := fun other get hget => by
          rcases update_eq_some hget with ⟨_, rfl⟩ | ⟨_, hold⟩
          · exact h.index key entry hentry
          · exact h.gets other get hold }
  · exact h

theorem nbytes_allocatedLayout (pooled : Bool) (layout : GdsLayout) :
    (allocatedLayout pooled layout).nbytes = layout.nbytes := by
  cases pooled <;> rfl

theorem loadBytes_mem (h : Inv config s) {get : GdsGet} (hentry : s.Stored get.key get.entry)
    {reply : GdsReply} {obj : GdsPut}
    (hload : loadBytes config s get gpu address reply = some obj) :
    ∃ put ∈ s.puts, obj = { put with layout := allocatedLayout get.pooled put.layout } := by
  cases reply with
  | raises | negative => cases hload
  | read n =>
    simp only [loadBytes, nbytes_allocatedLayout, bind_eq_bind, bind_eq_some_iff,
      ite_none_right_eq_some, some.injEq] at hload
    obtain ⟨file, hfile, hread, rfl⟩ := hload
    obtain ⟨hput, hpath, m, hcontent, hfull⟩ := h.files _ file hfile
    obtain ⟨hstorable, hlength⟩ := h.puts _ hput
    obtain ⟨_, hkey, other, hother, heq, hsame⟩ := hentry
    have howner : file.put.key = get.key :=
      eq_of_keyToPath hstorable (heq ▸ (h.puts other hother).1) hpath hkey config.digits
    have hsize : file.put.layout = get.entry.layout :=
      (h.layouts other hother _ hput (howner.trans heq.symm)).trans hsame
    rw [hcontent, take_take, length_take] at hread
    have hbytes : file.content.take
        (if config.useCufile then min n get.entry.layout.nbytes else get.entry.layout.nbytes) =
          file.put.bytes := by
      rw [hcontent, take_take, take_of_length_le]
      cases hmode : config.useCufile <;> simp [hmode, hsize] at hread hfull hlength ⊢ <;> omega
    have haddress : loadAddress config address = config.dataPtr + address := by
      cases hbase : config.hasBasePointer <;> simp [loadAddress, hbase]
    have hback := read_write_self gpu (config.dataPtr + address) file.put.bytes []
    rw [append_nil, hlength, hsize] at hback
    exact ⟨_, hput, by rw [hbytes, haddress, hback, ← howner, ← hsize]⟩

theorem inv_load (h : Inv config s) (id : ℕ) (gpu : ℕ → UInt8) (address : Option ℕ)
    (reply : GdsReply) : Inv config (exec config s (.load id gpu address reply)) := by
  rw [exec]
  split
  next get hget =>
    split
    · exact h
    · have hentry := h.gets id get hget
      exact
        { h with
          gets := fun other found hfound => by
            rcases update_eq_some hfound with ⟨_, rfl⟩ | ⟨_, hold⟩
            · exact hentry
            · exact h.gets other found hold
          index := fun key entry hindex => by
            dsimp only at hindex
            split at hindex
            · exact h.index key entry (update_none_eq_some hindex)
            · exact h.index key entry hindex
          returned := fun obj hobj => by
            rcases mem_append.mp hobj with hmem | hold
            · obtain ⟨_, hnew, rfl⟩ := mem_map.mp hmem
              obtain ⟨_, _, hload⟩ := bind_eq_some_iff.mp (mem_toList.mp hnew)
              exact loadBytes_mem h hentry hload
            · exact h.returned obj hold }
  · exact h

theorem stored_of_metadata (h : Inv config s) (hkey : Storable key)
    (hpath : keyToPath key = some path)
    (hread : s.metadataFiles path >>= GdsLayout.readMetadata = some layout) :
    s.Stored key ⟨path, layout⟩ := by
  obtain ⟨metadata, hmetadata, hlayout⟩ := bind_eq_some_iff.mp hread
  obtain ⟨hfile, put, hput, howner, hpack⟩ := h.metadata path metadata hmetadata
  exact ⟨hfile, hpath, put, hput, eq_of_keyToPath (h.puts put hput).1 hkey howner hpath config.digits,
    some.inj ((GdsLayout.readMetadata_of_packMetadata hpack).symm.trans hlayout)⟩

theorem inv_contains (h : Inv config s) (hkey : Storable key) :
    Inv config (exec config s (.contains key)) := by
  rw [exec]
  split
  next path _ hpath =>
    split
    next layout hread => exact inv_index h (stored_of_metadata h hkey hpath hread)
    · exact h
  · exact h

theorem stored_of_readEntry (h : Inv config s)
    (hread : readEntry config s path = some (key, entry)) :
    s.Stored key entry ∧ entry.path = path ∧ s.metadataFiles path ≠ none := by
  simp only [readEntry, bind_eq_bind, bind_eq_some_iff, some.injEq,
    Prod.mk.injEq] at hread
  obtain ⟨_, hscan, layout, hlayout, rfl, rfl⟩ := hread
  have ⟨metadata, hmetadata, _⟩ := hlayout
  obtain ⟨_, put, hput, hpath, _⟩ := h.metadata path metadata hmetadata
  have hstorable := (h.puts put hput).1
  obtain rfl := some.inj (hscan.symm.trans (scannedKey_of_keyToPath hstorable hpath _))
  refine ⟨stored_of_metadata h hstorable hpath (bind_eq_some_iff.mpr hlayout), rfl, ?_⟩
  rw [hmetadata]
  exact some_ne_none _

theorem inv_restart (h : Inv config s) (listing : List GdsPath) :
    Inv config (exec config s (.restart listing)) :=
  { h with
    index := fun _ _ hentry =>
      have ⟨_, _, hread⟩ := mem_filterMap.mp (mem_of_collect hentry)
      (stored_of_readEntry h hread).1
    gets := fun _ _ h => nomatch h
    saves := fun _ _ h => nomatch h
    putTasks := fun _ h => absurd h (Finset.notMem_empty _) }

theorem inv_exec (hmode : config.useCufile = true ∨ config.hasBasePointer = true)
    (s : GdsBackend) (event : GdsEvent) (h : Inv config s) (hsound : Sound config s event) :
    Inv config (exec config s event) := by
  cases event with
  | submit id put address => exact inv_submit h hsound
  | save id gpu written => exact inv_save h hmode hsound
  | insert id => exact inv_insert h id
  | saveMetadata id renames => exact inv_saveMetadata h id renames
  | lookup id key pooled => exact inv_lookup h id key pooled
  | load id gpu address reply => exact inv_load h id gpu address reply
  | contains key => exact inv_contains h hsound
  | restart listing => exact inv_restart h listing

def start : GdsBackend :=
  ⟨fun _ => none, ∅, fun _ => none, fun _ => none, fun _ => none, fun _ => none, [], []⟩

theorem inv_final (hmode : config.useCufile = true ∨ config.hasBasePointer = true)
    {events : List GdsEvent} (hsound : Along (exec config) (Sound config) start events) :
    Inv config (final (exec config) start events) :=
  invariant_final (inv_exec hmode)
    { puts := by simp [start]
      layouts := by simp [start]
      files := fun _ _ h => nomatch h
      metadata := fun _ _ h => nomatch h
      index := fun _ _ h => nomatch h
      gets := fun _ _ h => nomatch h
      saves := fun _ _ h => nomatch h
      putTasks := fun _ h => absurd h (Finset.notMem_empty _)
      returned := by simp [start] } hsound

theorem returned_mem_puts (hmode : config.useCufile = true ∨ config.hasBasePointer = true)
    {events : List GdsEvent} (hsound : Along (exec config) (Sound config) start events) :
    let s := final (exec config) start events
    (∀ obj ∈ s.returned, ∃ put ∈ s.puts,
      obj.2 = { put with layout := allocatedLayout obj.1 put.layout }) ∧
    (∀ key entry, s.hotCache key = some entry → s.files entry.path ≠ none ∧
      keyToPath key = some entry.path ∧ ∃ put ∈ s.puts, put.key = key ∧ put.layout = entry.layout) ∧
      ∀ key ∈ s.putTasks, ∃ id save, s.saves id = some save ∧ save.put.key = key ∧
        save.Unindexed :=
  have h := inv_final hmode hsound
  ⟨h.returned, h.index, h.putTasks⟩

def mappedCopy : GdsConfig := ⟨1000, true, false, fun _ => 100, Key.asciiOnly⟩

def twoBytes : GdsPut :=
  ⟨⟨['m'], 1, 0, 4660, .uint8, [], none, (Dict.empty : Dict _ _).nodup⟩,
    ⟨[2], .uint8, .kv2ltd⟩, [7, 9]⟩

def storeAndLoad : List GdsEvent :=
  [.submit 0 twoBytes 16, .save 0 (write (fun _ => 0) 1016 [7, 9]) (some 2), .insert 0,
    .saveMetadata 0 true, .lookup 1 twoBytes.key false, .load 1 (fun _ => 0) (some 32) (.read 2)]

theorem sound_storeAndLoad : Along (exec mappedCopy) (Sound mappedCopy) start storeAndLoad := by
  refine ⟨⟨rfl, ⟨rfl, by decide, by decide, by decide⟩, rfl, fun _ h => nomatch h⟩, ?_, trivial,
    trivial, trivial, trivial, trivial⟩
  intro save hsave
  obtain rfl := some.inj hsave
  decide

theorem returned_mem_puts_storeAndLoad :
    ∃ put ∈ (final (exec mappedCopy) start storeAndLoad).puts,
      twoBytes = { put with layout := allocatedLayout false put.layout } :=
  (returned_mem_puts (.inr rfl) sound_storeAndLoad).1 (false, twoBytes) (by decide +kernel)

theorem restart_ne_none_iff (hmode : config.useCufile = true ∨ config.hasBasePointer = true)
    {events : List GdsEvent} (hsound : Along (exec config) (Sound config) start events)
    {listing : List GdsPath}
    (hlisting : Sound config (final (exec config) start events) (.restart listing))
    (key : KeyIdentity) :
    let s := final (exec config) start events
    (exec config s (.restart listing)).hotCache key ≠ none ↔
      ∃ put ∈ s.puts, put.key = key ∧ ∃ path, keyToPath key = some path ∧
        s.files path ≠ none ∧ s.metadataFiles path ≠ none := by
  have h := inv_final hmode hsound
  constructor
  · intro hindex
    obtain ⟨entry, hentry⟩ := ne_none_iff_exists'.mp hindex
    obtain ⟨path, _, hread⟩ := mem_filterMap.mp (mem_of_collect hentry)
    obtain ⟨⟨hfile, hpath, put, hput, hkey, _⟩, rfl, hmetadata⟩ := stored_of_readEntry h hread
    exact ⟨put, hput, hkey, entry.path, hpath, hfile, hmetadata⟩
  · rintro ⟨put, hput, rfl, path, hpath, _, hmetadata⟩
    obtain ⟨metadata, hfound⟩ := ne_none_iff_exists'.mp hmetadata
    obtain ⟨_, other, _, _, hpack⟩ := h.metadata path metadata hfound
    refine collect_ne_none (v := ⟨path, other.layout⟩)
      (mem_filterMap.mpr ⟨path, (hlisting path).mpr hmetadata, ?_⟩)
    simp only [readEntry, scannedKey_of_keyToPath (h.puts put hput).1 hpath, hfound,
      GdsLayout.readMetadata_of_packMetadata hpack, bind_eq_bind, bind_some]

theorem restart_ne_none_iff_storeAndLoad :
    (exec mappedCopy (final (exec mappedCopy) start storeAndLoad)
      (.restart [⟨['4', '6'], ['6', '0'], twoBytes.key.toString⟩])).hotCache twoBytes.key ≠ none :=
  (restart_ne_none_iff (.inr rfl) sound_storeAndLoad (fun path => by
    have hmetadata : (final (exec mappedCopy) start storeAndLoad).metadataFiles = update
        (fun _ => none) ⟨['4', '6'], ['6', '0'], twoBytes.key.toString⟩ (some _) := rfl
    rw [hmetadata]
    simp [update_apply]) twoBytes.key).mpr
    ⟨twoBytes, by decide +kernel, rfl, _, rfl, by decide +kernel, by decide +kernel⟩

end GdsBackend

end LMCache
