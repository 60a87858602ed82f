import LMCache.Distributed.ObjectKey
import LMCache.Foundations.Cells
import LMCache.Foundations.Execution
import LMCache.Foundations.Substitution
import LMCache.Foundations.Text

namespace LMCache.FileNames

open List Nat Option

abbrev FileKey := ObjectKey (List UInt8)

variable (key : FileKey) (bytes : List UInt8) (u : UnicodeDigits)

open Numeral Text Substitution

section Hex

def byteHex (b : UInt8) : List Char :=
  [digitChar (b.toNat / 16), digitChar (b.toNat % 16)]

def bytesHex : List Char := bytes.flatMap byteHex

def isAsciiSpace (c : Char) : Bool := (9 ≤ c.toNat && c.toNat ≤ 13) || c.toNat == 32

def hexValue (c : Char) : Option ℕ :=
  (digitValue ⟨fun _ => none, fun _ => false⟩ c).filter fun d => d < 16

def bytesFromHex : List Char → Option (List UInt8)
  | [] => some []
  | [c] => if isAsciiSpace c then some [] else none
  | c :: d :: s =>
      if isAsciiSpace c then bytesFromHex (d :: s)
      else
        match hexValue c, hexValue d with
        | some high, some low => (bytesFromHex s).map (UInt8.ofNat (16 * high + low) :: ·)
        | _, _ => none

theorem hexValue_digitChar {d : ℕ} (h : d < 16) : hexValue (digitChar d) = some d := by
  rw [hexValue, digitValue_digitChar h]
  simp [h]

theorem isAsciiSpace_digitChar {d : ℕ} (h : d < 16) : isAsciiSpace (digitChar d) = false := by
  interval_cases d <;> rfl

theorem bytesFromHex_bytesHex : bytesFromHex (bytesHex bytes) = some bytes := by
  induction bytes with
  | nil => rfl
  | cons b bytes ih =>
    have hlt : b.toNat < 256 := b.toNat_lt
    have hhigh : b.toNat / 16 < 16 := by omega
    have hlow : b.toNat % 16 < 16 := mod_lt _ (by decide)
    have hbyte : UInt8.ofNat (16 * (b.toNat / 16) + b.toNat % 16) = b := by
      rw [div_add_mod, UInt8.ofNat_toNat]
    change bytesFromHex (digitChar (b.toNat / 16) :: digitChar (b.toNat % 16) :: bytesHex bytes) = _
    simp only [bytesFromHex, isAsciiSpace_digitChar hhigh, Bool.false_eq_true, if_false,
      hexValue_digitChar hhigh, hexValue_digitChar hlow, ih, map_some, hbyte]

theorem mem_bytesHex {bytes : List UInt8} {c : Char} (h : c ∈ bytesHex bytes) :
    ∃ d < 16, c = digitChar d := by
  obtain ⟨b, _, hc⟩ := mem_flatMap.mp h
  have hlt : b.toNat < 256 := b.toNat_lt
  rcases mem_pair.mp hc with rfl | rfl
  · exact ⟨b.toNat / 16, by omega, rfl⟩
  · exact ⟨b.toNat % 16, mod_lt _ (by decide), rfl⟩

end Hex

section Rank

def formatRank (kvRank : ℕ) : List Char := '0' :: 'x' :: (toDigits 16 kvRank).leftpad 8 '0'

variable {kvRank : ℕ}

theorem mem_leftpad_toDigits {n : ℕ} {c : Char} (h : c ∈ (toDigits 16 kvRank).leftpad n '0') :
    ∃ d < 16, c = digitChar d := by
  rw [leftpad, mem_append] at h
  rcases h with h | h
  · exact ⟨0, by decide, eq_of_mem_replicate h⟩
  · exact exists_digitChar_of_mem_toDigits (by decide) h

theorem readDigits_leftpad (u : UnicodeDigits) (kvRank n : ℕ) :
    readDigits u 16 ((toDigits 16 kvRank).leftpad n '0') 0 false = some kvRank := by
  have hzeros : ∀ (m : ℕ) (afterDigit : Bool), readDigits u 16
      (replicate m '0' ++ toDigits 16 kvRank) 0 afterDigit = some kvRank := by
    intro m
    induction m with
    | zero =>
      intro afterDigit
      have h := readDigits_toDigits_append (u := u) (by decide) (le_refl 16) kvRank [] afterDigit
      rw [append_nil] at h
      exact h
    | succ m ih =>
      intro afterDigit
      rw [replicate_succ, cons_append]
      exact (readDigits_digitChar_cons (le_refl 16) (by decide : 0 < 16)).trans (ih true)
  exact hzeros _ false

theorem notMem_formatRank : '@' ∉ formatRank kvRank ∧ '.' ∉ formatRank kvRank := by
  have hdigit : ∀ d < 16, digitChar d ≠ '@' ∧ digitChar d ≠ '.' := by decide
  have hpad : ∀ c ∈ (toDigits 16 kvRank).leftpad 8 '0', c ≠ '@' ∧ c ≠ '.' := by
    intro c hc
    obtain ⟨d, hd, rfl⟩ := mem_leftpad_toDigits hc
    exact hdigit d hd
  constructor
  · intro h
    simp only [formatRank, mem_cons, Char.reduceEq, false_or] at h
    exact (hpad _ h).1 rfl
  · intro h
    simp only [formatRank, mem_cons, Char.reduceEq, false_or] at h
    exact (hpad _ h).2 rfl

theorem dropHexPrefix_formatRank :
    dropHexPrefix 16 (formatRank kvRank) = (toDigits 16 kvRank).leftpad 8 '0' := by
  rw [formatRank, dropHexPrefix, if_pos ⟨rfl, .inl rfl⟩]
  intro rest heq
  obtain ⟨d, hd, hchar⟩ := mem_leftpad_toDigits (heq ▸ mem_cons_self)
  exact absurd hchar.symm (digitChar_ne hd).1

theorem parseInt_formatRank (u : UnicodeDigits) (kvRank : ℕ) :
    parseInt u 16 (formatRank kvRank) = some (kvRank : ℤ) := by
  have hstrip : stripOf isIntSpace (formatRank kvRank) = formatRank kvRank := by
    refine stripOf_eq_self fun c hc => ?_
    rcases mem_cons.mp hc with rfl | hc
    · rfl
    · rcases mem_cons.mp hc with rfl | hc
      · rfl
      · obtain ⟨d, hd, rfl⟩ := mem_leftpad_toDigits hc
        exact isIntSpace_eq_false (digitChar_ne hd).2.2.2.2.2.2.2
  have hread := readDigits_leftpad u kvRank 8
  rw [← dropHexPrefix_formatRank] at hread
  rw [parseInt, hstrip]
  split
  · next heq => exact absurd (cons.inj heq).1 (by decide)
  · next heq => exact absurd (cons.inj heq).1 (by decide)
  · rw [hread]
    rfl

end Rank

section FileName

def keySep : Char := '@'

def pathSlashReplacement : List Char := "-SEP-".toList

def fileExt : List Char := ".data".toList

def objectKeyToFilename : List Char :=
  replaceAll ['/'] pathSlashReplacement key.modelName.toList ++
    keySep :: formatRank key.kvRank ++ keySep :: bytesHex key.chunkHash ++ fileExt

def filenameToObjectKey (filename : List Char) : Option FileKey :=
  if fileExt <:+ filename then
    match rsplit keySep 2 (filename.take (filename.length - fileExt.length)) with
    | [safeModel, kvRankStr, chunkHashHex] => do
        let chunkHash ← bytesFromHex chunkHashHex
        -- no name is written for a negative rank; the source would read one back
        let kvRank ← (parseInt u 16 kvRankStr).bind Int.toNat?
        let modelName := String.ofList (replaceAll pathSlashReplacement ['/'] safeModel)
        some ⟨chunkHash, modelName, kvRank⟩
    | _ => none
  else none

def stem : List Char :=
  replaceAll ['/'] pathSlashReplacement key.modelName.toList ++
    keySep :: formatRank key.kvRank ++ keySep :: bytesHex key.chunkHash

theorem objectKeyToFilename_eq : objectKeyToFilename key = stem key ++ fileExt := rfl

theorem notMem_bytesHex : '@' ∉ bytesHex bytes := by
  intro h
  obtain ⟨d, hd, heq⟩ := mem_bytesHex h
  exact (digitChar_ne hd).2.2.2.2.2.1 heq.symm

theorem rsplit_stem : rsplit keySep 2 (stem key) =
    [replaceAll ['/'] pathSlashReplacement key.modelName.toList, formatRank key.kvRank,
      bytesHex key.chunkHash] := by
  have hrank : keySep ∉ formatRank key.kvRank := notMem_formatRank.1
  have hhash : keySep ∉ bytesHex key.chunkHash := notMem_bytesHex key.chunkHash
  rw [stem, rsplit_append hhash, rsplit_append hrank]
  rfl

theorem filenameToObjectKey_filename (key : FileKey) :
    filenameToObjectKey u (objectKeyToFilename key) = some { key with
      modelName := String.ofList (replaceAll pathSlashReplacement ['/']
        (escape '/' pathSlashReplacement key.modelName.toList)) } := by
  have htake : (objectKeyToFilename key).take ((objectKeyToFilename key).length - fileExt.length) =
      stem key := by
    rw [objectKeyToFilename_eq, length_append, Nat.add_sub_cancel, take_left]
  have hsuffix : fileExt <:+ objectKeyToFilename key := suffix_append _ _
  rw [filenameToObjectKey, if_pos hsuffix, htake, rsplit_stem]
  simp only [bytesFromHex_bytesHex, parseInt_formatRank, bind_some, bind]
  rfl

end FileName

section Reversible

def Reversible (modelName : List Char) : Prop :=
  ¬ "-SEP-".toList <:+: modelName ∧ ¬ "-SEP/".toList <:+: modelName

instance (modelName : List Char) : Decidable (Reversible modelName) :=
  inferInstanceAs (Decidable (¬ _ ∧ ¬ _))

theorem marker_prefix_iff {c : Char} (hc : c ≠ '/') (s : List Char) :
    pathSlashReplacement <+: escape '/' pathSlashReplacement (c :: s) ↔
      "-SEP-".toList <+: c :: s ∨ "-SEP/".toList <+: c :: s := by
  have hhead : ∀ d ∈ pathSlashReplacement.head?, d ≠ 'S' ∧ d ≠ 'E' ∧ d ≠ 'P' := by
    intro d hd
    obtain rfl : '-' = d := some.inj hd
    decide
  have hne : pathSlashReplacement ≠ [] := by decide
  have hlast : ∀ t : List Char, ['-'] <+: escape '/' pathSlashReplacement t ↔
      ['-'] <+: t ∨ ['/'] <+: t := by
    intro t
    cases t with
    | nil => simp
    | cons d t =>
      rw [escape_cons, cons_prefix_cons, cons_prefix_cons]
      split_ifs with hd
      · simp [hd, pathSlashReplacement]
      · simp only [singleton_append, cons_prefix_cons, nil_prefix, and_true]
        exact (or_iff_left fun h => hd h.symm).symm
  have hword : ∀ t p : List Char, '-' :: 'S' :: 'E' :: 'P' :: p <+: c :: t ↔
      '-' = c ∧ ∃ r, t = 'S' :: 'E' :: 'P' :: r ∧ p <+: r := by
    intro t p
    rw [cons_prefix_cons]
    refine and_congr_right fun _ => ⟨?_, ?_⟩
    · rintro ⟨r, rfl⟩
      exact ⟨p ++ r, rfl, prefix_append p r⟩
    · rintro ⟨r, rfl, h⟩
      exact cons_prefix_cons.mpr ⟨rfl, cons_prefix_cons.mpr ⟨rfl, cons_prefix_cons.mpr ⟨rfl, h⟩⟩⟩
  have hescaped : ∀ t : List Char, 'S' :: 'E' :: 'P' :: ['-'] <+:
      escape '/' pathSlashReplacement t ↔
        ∃ r, t = 'S' :: 'E' :: 'P' :: r ∧ ['-'] <+: escape '/' pathSlashReplacement r := by
    intro t
    rw [cons_prefix_escape (by decide) (fun d hd => (hhead d hd).1) hne]
    constructor
    · rintro ⟨q, rfl, hq⟩
      obtain ⟨p, rfl, hp⟩ :=
        (cons_prefix_escape (by decide) (fun d hd => (hhead d hd).2.1) hne).mp hq
      obtain ⟨r, rfl, hr⟩ :=
        (cons_prefix_escape (by decide) (fun d hd => (hhead d hd).2.2) hne).mp hp
      exact ⟨r, rfl, hr⟩
    · rintro ⟨r, rfl, h⟩
      refine ⟨_, rfl, ?_⟩
      refine (cons_prefix_escape (by decide) (fun d hd => (hhead d hd).2.1) hne).mpr ⟨_, rfl, ?_⟩
      exact (cons_prefix_escape (by decide) (fun d hd => (hhead d hd).2.2) hne).mpr ⟨r, rfl, h⟩
  rw [escape_cons, if_neg hc, singleton_append]
  change '-' :: 'S' :: 'E' :: 'P' :: ['-'] <+: c :: escape '/' pathSlashReplacement s ↔
    '-' :: 'S' :: 'E' :: 'P' :: ['-'] <+: c :: s ∨ '-' :: 'S' :: 'E' :: 'P' :: ['/'] <+: c :: s
  rw [cons_prefix_cons, hescaped, hword, hword, ← and_or_left, ← exists_or]
  refine and_congr_right fun _ => exists_congr fun r => ?_
  rw [hlast, ← and_or_left]

theorem replaceAll_escape_slash_iff (modelName : List Char) :
    replaceAll pathSlashReplacement ['/'] (escape '/' pathSlashReplacement modelName) = modelName ↔
      Reversible modelName := by
  rw [replaceAll_escape_iff (by decide), Reversible, ← not_or]
  constructor
  · intro h hinfix
    have hsuffix : ∃ c t, c ≠ '/' ∧ c :: t <:+ modelName ∧
        ("-SEP-".toList <+: c :: t ∨ "-SEP/".toList <+: c :: t) := by
      rcases hinfix with hinfix | hinfix
      · obtain ⟨t, ⟨r, rfl⟩, hsuffix⟩ := infix_iff_prefix_suffix.mp hinfix
        exact ⟨'-', _, by decide, hsuffix, .inl (prefix_append _ r)⟩
      · obtain ⟨t, ⟨r, rfl⟩, hsuffix⟩ := infix_iff_prefix_suffix.mp hinfix
        exact ⟨'-', _, by decide, hsuffix, .inr (prefix_append _ r)⟩
    obtain ⟨c, t, hc, hsuffix, hprefix⟩ := hsuffix
    exact h c t hc hsuffix ((marker_prefix_iff hc t).mpr hprefix)
  · intro h c t hc hsuffix hmarker
    refine h (((marker_prefix_iff hc t).mp hmarker).imp ?_ ?_)
    · exact fun hprefix => infix_iff_prefix_suffix.mpr ⟨_, hprefix, hsuffix⟩
    · exact fun hprefix => infix_iff_prefix_suffix.mpr ⟨_, hprefix, hsuffix⟩

theorem filenameToObjectKey_iff (key : FileKey) :
    filenameToObjectKey u (objectKeyToFilename key) = some key ↔
      Reversible key.modelName.toList := by
  obtain ⟨chunkHash, modelName, kvRank⟩ := key
  rw [filenameToObjectKey_filename, ← replaceAll_escape_slash_iff]
  simp only [some.injEq, ObjectKey.mk.injEq, true_and, and_true]
  constructor
  · intro h
    have hlist := congrArg String.toList h
    rwa [String.toList_ofList] at hlist
  · intro h
    rw [h, String.ofList_toList]

end Reversible

section Paths

def joinPath (dir : List (List Char)) (name : List Char) : List (List Char) :=
  dir ++ (name.splitOn '/').filter fun part => part ≠ [] ∧ part ≠ ['.']

def withSuffix (name suffix : List Char) : List Char :=
  match rsplitOnce '.' name with
  | some (front, back) => if front ≠ [] ∧ back ≠ [] then front ++ suffix else name ++ suffix
  | none => name ++ suffix

structure FSL2Adapter where
  basePath : List (List Char)
  relativeTmpDir : Option (List Char)

namespace FSL2Adapter

variable (adapter : FSL2Adapter)

def keyToFileAndTmpPath (key : FileKey) : List (List Char) × List (List Char) :=
  let fname := objectKeyToFilename key
  let final := joinPath adapter.basePath fname
  match adapter.relativeTmpDir with
  | some dir => (final, joinPath (joinPath adapter.basePath dir) fname)
  | none => (final, final.dropLast ++ [withSuffix (final.getLastD []) ".tmp".toList])

def files (key : FileKey) : List (List (List Char)) :=
  [(adapter.keyToFileAndTmpPath key).1, (adapter.keyToFileAndTmpPath key).2]

def Reverses (u : UnicodeDigits) (keys : Set FileKey) : Prop :=
  (∀ key ∈ keys, filenameToObjectKey u (objectKeyToFilename key) = some key) ∧
    ∀ key ∈ keys, ∀ key' ∈ keys, key ≠ key' → (adapter.files key).Disjoint (adapter.files key')

end FSL2Adapter

theorem notMem_stem : '/' ∉ stem key := by
  have hhex : ∀ d < 16, digitChar d ≠ '/' := by decide
  have hname : '/' ∉ escape '/' pathSlashReplacement key.modelName.toList :=
    notMem_escape (by decide) _
  rw [stem, mem_append, mem_append, not_or, not_or]
  refine ⟨⟨hname, ?_⟩, ?_⟩
  · simp only [keySep, formatRank, mem_cons, Char.reduceEq, false_or]
    intro h
    obtain ⟨d, hd, heq⟩ := mem_leftpad_toDigits h
    exact hhex d hd heq.symm
  · simp only [keySep, mem_cons, Char.reduceEq, false_or]
    intro h
    obtain ⟨d, hd, heq⟩ := mem_bytesHex h
    exact hhex d hd heq.symm

theorem stem_ne_nil : stem key ≠ [] := by
  rw [stem]
  simp

theorem joinPath_filename (dir : List (List Char)) (key : FileKey) :
    joinPath dir (objectKeyToFilename key) = dir ++ [objectKeyToFilename key] := by
  have hslash : '/' ∉ objectKeyToFilename key := by
    rw [objectKeyToFilename_eq, mem_append, not_or]
    exact ⟨notMem_stem key, by decide⟩
  have hlong : 5 ≤ (objectKeyToFilename key).length := by
    rw [objectKeyToFilename_eq, length_append]
    exact le_add_left _ _
  have hempty : objectKeyToFilename key ≠ [] := by
    intro heq
    rw [heq] at hlong
    exact absurd hlong (by decide)
  have hdot : objectKeyToFilename key ≠ ['.'] := by
    intro heq
    rw [heq] at hlong
    exact absurd hlong (by decide)
  rw [joinPath, splitOn_eq_singleton hslash]
  simp [hempty, hdot]

theorem withSuffix_filename (suffix : List Char) :
    withSuffix (objectKeyToFilename key) suffix = stem key ++ suffix := by
  have hsplit : rsplitOnce '.' (objectKeyToFilename key) = some (stem key, "data".toList) :=
    rsplitOnce_append (by decide)
  rw [withSuffix, hsplit]
  exact if_pos ⟨stem_ne_nil key, by decide⟩

variable {path : List (List Char)}

theorem stem_of_mem_files {adapter : FSL2Adapter} {key : FileKey} (h : path ∈ adapter.files key) :
    path.getLast? = some (stem key ++ ".data".toList) ∨
      path.getLast? = some (stem key ++ ".tmp".toList) := by
  have hdata : ∀ dir, (joinPath dir (objectKeyToFilename key)).getLast? =
      some (stem key ++ ".data".toList) := by
    intro dir
    rw [joinPath_filename, getLast?_concat]
    rfl
  rw [FSL2Adapter.files, FSL2Adapter.keyToFileAndTmpPath] at h
  cases hdir : adapter.relativeTmpDir with
  | none =>
    rw [hdir] at h
    rcases mem_pair.mp h with rfl | rfl
    · exact .inl (hdata _)
    · right
      rw [getLast?_concat, joinPath_filename, getLastD_concat, withSuffix_filename]
  | some dir =>
    rw [hdir] at h
    rcases mem_pair.mp h with rfl | rfl
    · exact .inl (hdata _)
    · exact .inl (hdata _)

theorem stem_eq_of_common {adapter : FSL2Adapter} {key key' : FileKey}
    (h : path ∈ adapter.files key) (h' : path ∈ adapter.files key') : stem key = stem key' := by
  have hends : ∀ s s' : List Char, s ++ ".data".toList ≠ s' ++ ".tmp".toList := by
    intro s s' heq
    have hlast := congrArg getLast? heq
    rw [getLast?_append_of_ne_nil _ (by decide), getLast?_append_of_ne_nil _ (by decide)] at hlast
    exact absurd hlast (by decide)
  rcases stem_of_mem_files h with hlast | hlast <;> rcases stem_of_mem_files h' with hlast' | hlast'
  · exact append_cancel_right (some.inj (hlast.symm.trans hlast'))
  · exact absurd (some.inj (hlast.symm.trans hlast')) (hends _ _)
  · exact absurd (some.inj (hlast'.symm.trans hlast)) (hends _ _)
  · exact append_cancel_right (some.inj (hlast.symm.trans hlast'))

theorem reverses_iff (adapter : FSL2Adapter) (u : UnicodeDigits) (keys : Set FileKey) :
    adapter.Reverses u keys ↔ ∀ key ∈ keys, Reversible key.modelName.toList := by
  constructor
  · intro h key hkey
    exact (filenameToObjectKey_iff u key).mp (h.1 key hkey)
  · intro h
    have hread : ∀ key ∈ keys, filenameToObjectKey u (objectKeyToFilename key) = some key :=
      fun key hkey => (filenameToObjectKey_iff u key).mpr (h key hkey)
    refine ⟨hread, fun key hkey key' hkey' hne path hpath hpath' => hne ?_⟩
    have hstem := stem_eq_of_common hpath hpath'
    have hsame : objectKeyToFilename key = objectKeyToFilename key' := by
      rw [objectKeyToFilename_eq, objectKeyToFilename_eq, hstem]
    have hsome := hread key' hkey'
    rw [← hsame, hread key hkey] at hsome
    exact some.inj hsome

def slashKey : FileKey := ⟨[171], "a/b", 0x02000200⟩

def markerKey : FileKey := { slashKey with modelName := "a-SEP-b" }

theorem not_reverses_markerKey :
    ¬ ∀ (adapter : FSL2Adapter) (u : UnicodeDigits) (keys : Set FileKey),
      adapter.Reverses u keys := by
  intro h
  have hkeys := h ⟨[], none⟩ ⟨fun _ => none, fun _ => false⟩ {slashKey, markerKey}
  have hread := (filenameToObjectKey_iff _ markerKey).mp (hkeys.1 markerKey (Set.mem_insert_of_mem _ rfl))
  exact absurd hread (by decide)

namespace FSL2Adapter

open Execution Function

inductive FSPoint where
  | checks
  | opens
  | writes (inode : ℕ)
  | replaces
  | cleans

structure FSStore where
  keys : List FileKey
  rest : List FileKey
  point : FSPoint
  success : Bool

-- key says whose object goes into the file
structure FSInode where
  key : FileKey
  content : List UInt8

structure FSRead where
  key : FileKey
  expected : ℕ
  buffer : List UInt8

structure FSRun where
  names : List (List Char) → Option ℕ
  inodes : ℕ → FSInode
  nextInode : ℕ
  tasks : ℕ → Option FSStore
  loaded : List FSRead

-- bytes is how much the call writes, none when it raises at once
inductive FSEvent where
  | submitStoreTask (id : ℕ) (keys : List FileKey)
  | executeStore (id : ℕ) (bytes : Option ℕ)
  | load (key : FileKey) (expected : ℕ)

variable (adapter : FSL2Adapter) (content : FileKey → List UInt8)

def overlay (written old : List UInt8) : List UInt8 := written ++ old.drop written.length

def executeStore (s : FSRun) (task : FSStore) (key : FileKey) (rest : List FileKey)
    (bytes : Option ℕ) : FSRun × FSStore :=
  let path := (adapter.keyToFileAndTmpPath key).1
  let tmp := (adapter.keyToFileAndTmpPath key).2
  let passed := { task with rest := rest, point := .checks }
  match task.point, bytes with
  | .checks, some _ =>
    (s, if (s.names path).isSome then passed else { task with point := .opens })
  | .opens, some _ =>
    match s.names tmp with
    | some i =>
      ({ s with inodes := update s.inodes i ⟨(s.inodes i).key, []⟩ },
        { task with point := .writes i })
    | none =>
      ({ s with
          names := update s.names tmp (some s.nextInode)
          inodes := update s.inodes s.nextInode ⟨key, []⟩
          nextInode := s.nextInode + 1 },
        { task with point := .writes s.nextInode })
  | .writes i, some n =>
    let written := overlay ((content key).take n) (s.inodes i).content
    ({ s with inodes := update s.inodes i ⟨(s.inodes i).key, written⟩ },
      { task with point := if (content key).length ≤ n then .replaces else .cleans })
  | .replaces, some _ =>
    match s.names tmp with
    | some i => ({ s with names := update (update s.names tmp none) path (some i) }, passed)
    | none => (s, { task with point := .cleans })
  | .cleans, some _ =>
    ({ s with names := update s.names tmp none }, { passed with success := false })
  -- an error outside the inner try ends the whole task
  | .checks, none | .cleans, none => (s, { task with rest := [], success := false })
  | _, none => (s, { task with point := .cleans })

def exec (s : FSRun) : FSEvent → FSRun
  | .submitStoreTask id keys =>
    { s with tasks := update s.tasks id (some ⟨keys, keys, .checks, true⟩) }
  | .executeStore id bytes =>
    match s.tasks id with
    | some task =>
      match task.rest with
      | key :: rest =>
        let after := executeStore adapter content s task key rest bytes
        { after.1 with tasks := update after.1.tasks id (some after.2) }
      | [] => s
    | none => s
  | .load key expected =>
    match s.names (adapter.keyToFileAndTmpPath key).1 with
    | some i =>
      let buffer := (s.inodes i).content.take expected
      if buffer.length = expected then { s with loaded := ⟨key, expected, buffer⟩ :: s.loaded }
      else s
    | none => s

def start : FSRun := ⟨fun _ => none, fun _ => ⟨⟨[], "", 0⟩, []⟩, 0, fun _ => none, []⟩

structure Tracked (keys : Set FileKey) (s : FSRun) (task : FSStore) : Prop where
  known : ∀ key ∈ task.keys, key ∈ keys
  rest : ∀ key ∈ task.rest, key ∈ task.keys
  writing : ∀ i key rest, task.point = .writes i → task.rest = key :: rest →
    i < s.nextInode ∧ (s.inodes i).key = key
  stored : task.success = true → ∀ key ∈ task.keys, key ∈ task.rest ∨
    s.names (adapter.keyToFileAndTmpPath key).1 ≠ none

structure Disk (keys : Set FileKey) (s : FSRun) : Prop where
  names : ∀ path i, s.names path = some i → i < s.nextInode ∧ path ∈ adapter.files (s.inodes i).key
  inodes : ∀ i < s.nextInode, (s.inodes i).key ∈ keys ∧
    (s.inodes i).content <+: content (s.inodes i).key

structure Inv (keys : Set FileKey) (s : FSRun) : Prop extends Disk adapter content keys s where
  tasks : ∀ id task, s.tasks id = some task → Tracked adapter keys s task
  loaded : ∀ read ∈ s.loaded, read.expected ≤ (content read.key).length ∧
    read.buffer = (content read.key).take read.expected

structure Grows (keys : Set FileKey) (s s' : FSRun) : Prop where
  nextInode : s.nextInode ≤ s'.nextInode
  inodes : ∀ i < s.nextInode, (s'.inodes i).key = (s.inodes i).key
  names : ∀ key ∈ keys, s.names (adapter.keyToFileAndTmpPath key).1 ≠ none →
    s'.names (adapter.keyToFileAndTmpPath key).1 ≠ none

variable {adapter : FSL2Adapter} {content : FileKey → List UInt8} {keys : Set FileKey}
  {s s' : FSRun}

theorem Tracked.mono {task : FSStore} (hgrows : Grows adapter keys s s')
    (h : Tracked adapter keys s task) : Tracked adapter keys s' task where
  known := h.known
  rest := h.rest
  writing i key rest hpoint hrest := by
    obtain ⟨hlt, hkey⟩ := h.writing i key rest hpoint hrest
    exact ⟨hlt.trans_le hgrows.nextInode, (hgrows.inodes i hlt).trans hkey⟩
  stored hsuccess key hkey :=
    (h.stored hsuccess key hkey).imp_right (hgrows.names key (h.known key hkey))

theorem isPrefix_overlay {all old : List UInt8} (h : old <+: all) (n : ℕ) :
    overlay (all.take n) old <+: all := by
  rw [overlay]
  rcases le_total old.length (all.take n).length with hle | hle
  · rw [drop_eq_nil_of_le hle, append_nil]
    exact take_prefix n all
  · have hwritten : all.take n = old.take (all.take n).length :=
      prefix_iff_eq_take.mp (prefix_of_prefix_length_le (List.take_prefix n all) h hle)
    nth_rewrite 1 [hwritten]
    rwa [take_append_drop]

theorem Grows.refl : Grows adapter keys s s := ⟨le_rfl, fun _ _ => rfl, fun _ _ h => h⟩

variable {u : UnicodeDigits} {key : FileKey} {rest : List FileKey} {task : FSStore}
  (hreverses : adapter.Reverses u keys)
  (hapart : ∀ key ∈ keys, (adapter.keyToFileAndTmpPath key).1 ≠
  (adapter.keyToFileAndTmpPath key).2)

theorem Tracked.passed (h : Tracked adapter keys s task) (hrest : task.rest = key :: rest)
    {success : Bool} (hdone : success = true → task.success = true ∧
      s.names (adapter.keyToFileAndTmpPath key).1 ≠ none) :
    Tracked adapter keys s { task with rest := rest, point := .checks, success := success } where
  known := h.known
  rest other hother := h.rest other (hrest ▸ mem_cons_of_mem key hother)
  writing _ _ _ hpoint := nomatch hpoint
  stored hsuccess other hother := by
    obtain ⟨hold, hname⟩ := hdone hsuccess
    rcases h.stored hold other hother with hmem | hstored
    · rcases mem_cons.mp (hrest ▸ hmem) with rfl | htail
      · exact .inr hname
      · exact .inl htail
    · exact .inr hstored

theorem Tracked.at {point : FSPoint} (h : Tracked adapter keys s task)
    (hrest : task.rest = key :: rest)
    (hpoint : ∀ i, point = .writes i → i < s.nextInode ∧ (s.inodes i).key = key) :
    Tracked adapter keys s { task with point := point } :=
  { h with
    writing := fun i other _ heq hother => by
      obtain ⟨rfl, _⟩ := cons.inj (hrest.symm.trans hother)
      exact hpoint i heq }

theorem Disk.write (h : Disk adapter content keys s) {i : ℕ} {written : List UInt8}
    (hwritten : i < s.nextInode → written <+: content (s.inodes i).key) :
    let s' := { s with inodes := update s.inodes i ⟨(s.inodes i).key, written⟩ }
    Disk adapter content keys s' ∧ Grows adapter keys s s' := by
  have hkeys : ∀ j, (update s.inodes i ⟨(s.inodes i).key, written⟩ j).key = (s.inodes j).key := by
    intro j
    by_cases heq : j = i
    · rw [heq, update_self]
    · rw [update_of_ne heq]
  refine ⟨⟨fun path j hj => ?_, fun j hj => ?_⟩, ⟨le_rfl, fun j _ => hkeys j, fun _ _ h => h⟩⟩
  · rw [hkeys]
    exact h.names path j hj
  · rw [hkeys]
    refine ⟨(h.inodes j hj).1, ?_⟩
    by_cases heq : j = i
    · obtain rfl := heq
      simpa only [update_self] using hwritten hj
    · simpa only [update_of_ne heq] using (h.inodes j hj).2

include hreverses in
theorem key_of_names (h : Disk adapter content keys s) (hkey : key ∈ keys)
    {path : List (List Char)} (hpath : path ∈ adapter.files key) {i : ℕ}
    (hname : s.names path = some i) : i < s.nextInode ∧ (s.inodes i).key = key := by
  obtain ⟨hlt, hmem⟩ := h.names path i hname
  refine ⟨hlt, ?_⟩
  by_contra hne
  exact hreverses.2 _ (h.inodes i hlt).1 key hkey hne hmem hpath

include hreverses hapart in
theorem path_ne_tmp {key' : FileKey} (hkey : key ∈ keys) (hkey' : key' ∈ keys) :
    (adapter.keyToFileAndTmpPath key).1 ≠ (adapter.keyToFileAndTmpPath key').2 := by
  intro heq
  rcases eq_or_ne key key' with rfl | hne
  · exact hapart key hkey heq
  · exact hreverses.2 key hkey key' hkey' hne mem_cons_self
      (heq ▸ mem_cons_of_mem _ mem_cons_self)

include hreverses hapart in
theorem executeStore_spec (hdisk : Disk adapter content keys s)
    (htask : Tracked adapter keys s task) (hrest : task.rest = key :: rest) (bytes : Option ℕ) :
    let after := executeStore adapter content s task key rest bytes
    Disk adapter content keys after.1 ∧ Grows adapter keys s after.1 ∧
      Tracked adapter keys after.1 after.2 ∧ after.1.loaded = s.loaded ∧
      after.1.tasks = s.tasks := by
  have hkey : key ∈ keys := htask.known key (htask.rest key (hrest ▸ mem_cons_self))
  have htmp : (adapter.keyToFileAndTmpPath key).2 ∈ adapter.files key :=
    mem_cons_of_mem _ mem_cons_self
  have hended : Tracked adapter keys s { task with rest := [], success := false } :=
    { htask with
      rest := fun _ h => absurd h not_mem_nil
      writing := fun _ _ _ _ h => nomatch h
      stored := fun h => nomatch h }
  obtain ⟨all, left, point, success⟩ := task
  cases point with
  | checks =>
    cases bytes with
    | none => exact ⟨hdisk, .refl, hended, rfl, rfl⟩
    | some n =>
      refine ⟨hdisk, .refl, ?_, rfl, rfl⟩
      dsimp only [executeStore]
      split
      · exact htask.passed hrest fun h => ⟨h, isSome_iff_ne_none.mp ‹_›⟩
      · exact htask.at hrest fun _ h => nomatch h
  | opens =>
    cases bytes with
    | none => exact ⟨hdisk, .refl, htask.at hrest fun _ h => (nomatch h), rfl, rfl⟩
    | some n =>
      dsimp only [executeStore]
      split
      next i hname =>
        obtain ⟨hlt, howner⟩ := key_of_names hreverses hdisk hkey htmp hname
        obtain ⟨hwritten, hgrows⟩ := hdisk.write (fun _ => nil_prefix)
        refine ⟨hwritten, hgrows, (htask.mono hgrows).at hrest ?_, rfl, rfl⟩
        rintro _ heq
        obtain rfl := FSPoint.writes.inj heq
        exact ⟨hlt, (hgrows.inodes i hlt).trans howner⟩
      next hname =>
        have hgrows : Grows adapter keys s
            { s with
              names := update s.names (adapter.keyToFileAndTmpPath key).2 (some s.nextInode)
              inodes := update s.inodes s.nextInode ⟨key, []⟩
              nextInode := s.nextInode + 1 } :=
          ⟨le_succ _, fun j hj => by simp only [update_of_ne hj.ne], fun other hother hstored =>
            ne_of_eq_of_ne (update_of_ne (path_ne_tmp hreverses hapart hother hkey) ..) hstored⟩
        refine ⟨⟨fun path j hj => ?_, fun j hj => ?_⟩, hgrows, (htask.mono hgrows).at hrest ?_, rfl,
          rfl⟩
        · rcases Cells.update_eq_some hj with ⟨rfl, rfl⟩ | ⟨_, hold⟩
          · exact ⟨lt_succ_self _, by simpa only [update_self] using htmp⟩
          · obtain ⟨hlt, hmem⟩ := hdisk.names path j hold
            exact ⟨lt_succ_of_lt hlt, by simpa only [update_of_ne hlt.ne] using hmem⟩
        · rcases Nat.lt_succ_iff_lt_or_eq.mp hj with hlt | rfl
          · simpa only [update_of_ne hlt.ne] using hdisk.inodes j hlt
          · simpa only [update_self] using ⟨hkey, nil_prefix⟩
        · rintro _ heq
          obtain rfl := FSPoint.writes.inj heq
          exact ⟨lt_succ_self _, by simp only [update_self]⟩
  | writes i =>
    obtain ⟨hlt, howner⟩ := htask.writing i key rest rfl hrest
    cases bytes with
    | none => exact ⟨hdisk, .refl, htask.at hrest fun _ h => (nomatch h), rfl, rfl⟩
    | some n =>
      have hoverlay : overlay ((content key).take n) (s.inodes i).content <+:
          content (s.inodes i).key := by
        rw [← howner]
        exact isPrefix_overlay (hdisk.inodes i hlt).2 n
      obtain ⟨hwritten, hgrows⟩ := hdisk.write fun _ => hoverlay
      refine ⟨hwritten, hgrows, (htask.mono hgrows).at hrest ?_, rfl, rfl⟩
      intro j heq
      split at heq <;> cases heq
  | replaces =>
    cases bytes with
    | none => exact ⟨hdisk, .refl, htask.at hrest fun _ h => (nomatch h), rfl, rfl⟩
    | some n =>
      dsimp only [executeStore]
      split
      next i hname =>
        obtain ⟨hlt, howner⟩ := key_of_names hreverses hdisk hkey htmp hname
        have hgrows : Grows adapter keys s
            { s with
              names := update (update s.names (adapter.keyToFileAndTmpPath key).2 none)
                (adapter.keyToFileAndTmpPath key).1 (some i) } := by
          refine ⟨le_rfl, fun _ _ => rfl, fun other hother hstored hnone => ?_⟩
          obtain ⟨_, hold⟩ := Cells.update_eq_none hnone
          rw [update_of_ne (path_ne_tmp hreverses hapart hother hkey)] at hold
          exact hstored hold
        refine ⟨⟨fun path j hj => ?_, hdisk.inodes⟩, hgrows, (htask.mono hgrows).passed hrest
          fun h => ⟨h, by simp⟩, rfl, rfl⟩
        rcases Cells.update_eq_some hj with ⟨rfl, rfl⟩ | ⟨_, hold⟩
        · exact ⟨hlt, howner ▸ mem_cons_self⟩
        · exact hdisk.names path j (Cells.update_none_eq_some hold)
      · exact ⟨hdisk, .refl, htask.at hrest fun _ h => (nomatch h), rfl, rfl⟩
  | cleans =>
    cases bytes with
    | none => exact ⟨hdisk, .refl, hended, rfl, rfl⟩
    | some n =>
      have hgrows : Grows adapter keys s
          { s with names := update s.names (adapter.keyToFileAndTmpPath key).2 none } :=
        ⟨le_rfl, fun _ _ => rfl, fun other hother hstored =>
          ne_of_eq_of_ne (update_of_ne (path_ne_tmp hreverses hapart hother hkey) ..) hstored⟩
      exact ⟨⟨fun path j hj => hdisk.names path j (Cells.update_none_eq_some hj), hdisk.inodes⟩,
        hgrows, (htask.mono hgrows).passed hrest fun h => (nomatch h), rfl, rfl⟩

def Knows (keys : Set FileKey) : FSEvent → Prop
  | .submitStoreTask _ stored => ∀ key ∈ stored, key ∈ keys
  | .executeStore .. => True
  | .load key _ => key ∈ keys

include hreverses hapart in
theorem inv_exec (s : FSRun) (event : FSEvent) (h : Inv adapter content keys s)
    (hknows : Knows keys event) : Inv adapter content keys (exec adapter content s event) := by
  cases event with
  | submitStoreTask id stored =>
    exact
      { h with
        tasks := fun other found hfound => by
          rcases Cells.update_eq_some hfound with ⟨_, rfl⟩ | ⟨_, hold⟩
          · exact ⟨hknows, fun _ hkey => hkey, fun _ _ _ hpoint => (nomatch hpoint),
              fun _ _ hkey => .inl hkey⟩
          · exact { h.tasks other found hold with } }
  | executeStore id bytes =>
    rw [exec]
    split
    next task htask =>
      split
      next key rest hrest =>
        obtain ⟨hdisk, hgrows, htracked, hloaded, htasks⟩ := executeStore_spec hreverses hapart
          h.toDisk (h.tasks id task htask) hrest bytes
        refine ⟨⟨hdisk.names, hdisk.inodes⟩, fun other found hfound => ?_, ?_⟩
        · rcases Cells.update_eq_some hfound with ⟨_, rfl⟩ | ⟨_, hold⟩
          · exact { htracked with }
          · exact { (h.tasks other found (htasks ▸ hold)).mono hgrows with }
        · dsimp only
          rw [hloaded]
          exact h.loaded
      · exact h
    · exact h
  | load key expected =>
    rw [exec]
    split
    next i hname =>
      dsimp only
      split
      next hlength =>
        obtain ⟨hlt, howner⟩ := key_of_names hreverses h.toDisk hknows mem_cons_self hname
        have hcontent := (h.inodes i hlt).2
        rw [howner] at hcontent
        have hexpected : expected ≤ (s.inodes i).content.length := by
          rw [length_take] at hlength
          omega
        obtain ⟨tail, htail⟩ := hcontent
        have hlong : expected ≤ (content key).length := by
          rw [← htail, length_append]
          exact le_add_right_of_le hexpected
        exact
          { h with
            tasks := fun id task htask => { h.tasks id task htask with }
            loaded := forall_mem_cons.mpr
              ⟨⟨hlong, by rw [← htail, take_append_of_le_length hexpected]⟩, h.loaded⟩ }
      · exact h
    · exact h

theorem stored_and_loaded {adapter : FSL2Adapter} {keys : Set FileKey} {u : UnicodeDigits}
    (hreverses : adapter.Reverses u keys) (hapart : ∀ key ∈ keys,
      (adapter.keyToFileAndTmpPath key).1 ≠ (adapter.keyToFileAndTmpPath key).2)
    (content : FileKey → List UInt8) {events : List FSEvent}
    (hknows : ∀ event ∈ events, Knows keys event) :
    let s := final (exec adapter content) start events
    (∀ read ∈ s.loaded, read.expected ≤ (content read.key).length ∧
        read.buffer = (content read.key).take read.expected) ∧
      ∀ id task, s.tasks id = some task → task.rest = [] → task.success = true →
        ∀ key ∈ task.keys, s.names (adapter.keyToFileAndTmpPath key).1 ≠ none := by
  have hstart : Inv adapter content keys start :=
    { names := fun _ _ h => nomatch h
      inodes := fun _ h => absurd h (not_lt_zero _)
      tasks := fun _ _ h => nomatch h
      loaded := fun _ h => absurd h not_mem_nil }
  have h := invariant_final (fun s event h => inv_exec hreverses hapart s event h) hstart
    (along_of_mem hknows start)
  refine ⟨h.loaded, fun id task htask hrest hsuccess key hkey => ?_⟩
  rcases (h.tasks id task htask).stored hsuccess key hkey with hmem | hstored
  · rw [hrest] at hmem
    exact absurd hmem not_mem_nil
  · exact hstored

def twoStores : List FSEvent :=
  [.submitStoreTask 0 [slashKey], .submitStoreTask 1 [slashKey], .executeStore 0 (some 0),
    .executeStore 1 (some 0), .executeStore 0 (some 0), .executeStore 0 (some 2),
    .executeStore 1 (some 0), .executeStore 0 (some 0), .load slashKey 2, .executeStore 1 (some 2),
    .load slashKey 2]

theorem reverses_slashKey :
    (⟨[], none⟩ : FSL2Adapter).Reverses ⟨fun _ => none, fun _ => false⟩ {slashKey} := by
  refine ⟨fun key hkey => ?_, fun key hkey key' hkey' hne => absurd (hkey.trans hkey'.symm) hne⟩
  obtain rfl := Set.mem_singleton_iff.mp hkey
  decide

theorem stored_and_loaded_twoStores :
    (final (exec ⟨[], none⟩ fun _ => [7, 9]) start twoStores).names
      (keyToFileAndTmpPath ⟨[], none⟩ slashKey).1 ≠ none :=
  (stored_and_loaded reverses_slashKey (fun _ hkey => hkey ▸ by decide) _ (by
    simp [twoStores, Knows])).2 0 ⟨[slashKey], [], .checks, true⟩ rfl rfl rfl slashKey mem_cons_self

end FSL2Adapter

end Paths

end LMCache.FileNames
