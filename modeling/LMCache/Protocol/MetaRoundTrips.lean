import LMCache.Protocol.MetaMessages

namespace LMCache.Protocol

open List Utf8

variable {u : UnicodeDigits} {order : ByteOrder}

open Struct Text Utils

section KeyField

variable (s : List Char)

theorem sublist_strip : (strip s).Sublist s :=
  (List.rdropWhile_prefix isSpace _).sublist.trans (dropWhile_suffix isSpace).sublist

theorem rdropWhile_append_replicate (n : ℕ) :
    (s ++ replicate n ' ').rdropWhile isSpace = s.rdropWhile isSpace := by
  induction n with
  | zero => rw [replicate_zero, append_nil]
  | succ n ih =>
    rw [replicate_succ', ← append_assoc, rdropWhile_concat_pos _ _ _ (by decide), ih]

theorem strip_append_replicate (n : ℕ) : strip (s ++ replicate n ' ') = strip s := by
  have hblanks : (replicate n ' ').dropWhile isSpace = [] := by
    rw [dropWhile_eq_nil_iff]
    intro c hc
    rw [eq_of_mem_replicate hc]
    decide
  rw [strip, stripOf, strip, stripOf, dropWhile_append]
  split
  · next hempty =>
    rw [hblanks, isEmpty_iff.mp hempty]
  · exact rdropWhile_append_replicate _ _

def keyField (keyStr : List Char) : List UInt8 :=
  packField maxKeyLength (ljust maxKeyLength (encode keyStr))

theorem keyField_of_le {s : List Char} (h : (encode s).length ≤ maxKeyLength) :
    keyField s = encode (s ++ replicate (maxKeyLength - (encode s).length) ' ') := by
  have hlength : (ljust maxKeyLength (encode s)).length = maxKeyLength := by
    rw [ljust, length_append, length_replicate]
    omega
  rw [keyField, packField, hlength, Nat.sub_self, replicate_zero, append_nil,
    take_of_length_le (Nat.le_of_eq hlength), ljust, encode_append,
    encode_replicate_blank]

theorem keyField_of_lt {s : List Char} (h : maxKeyLength < (encode s).length) :
    keyField s = (encode s).take maxKeyLength := by
  have hlength : (ljust maxKeyLength (encode s)).length = (encode s).length := by
    rw [ljust, length_append, length_replicate]
    omega
  rw [keyField, packField, hlength, Nat.sub_eq_zero_of_le (Nat.le_of_lt h), replicate_zero,
    append_nil, ljust, take_append_of_le_length (Nat.le_of_lt h)]

theorem length_keyField : (keyField s).length = maxKeyLength :=
  length_packField _ _

def KeyFits (key : Key) : Prop :=
  (encode key.toString).length ≤ maxKeyLength ∧ strip key.toString = key.toString

instance (key : Key) : Decidable (KeyFits key) := inferInstanceAs (Decidable (_ ∧ _))

theorem readKey_encode (u : UnicodeDigits) (text : List Char) :
    readKey u (encode text) =
      match parseCacheKey u (strip text) with
      | .ok key => .ok key
      | .error error => .error (.invalidKey error) := by
  rw [readKey, decode_encode]
  rfl

theorem readKey_keyField {key : Key} (hkey : key.RoundTrips u) (h : KeyFits key) :
    ∃ key', readKey u (keyField key.toString) = .ok key' ∧ key.Eq key' := by
  obtain ⟨key', hparse, heq⟩ := hkey
  refine ⟨key', ?_, heq⟩
  rw [keyField_of_le h.1, readKey_encode, strip_append_replicate, h.2, hparse]

theorem exists_of_readKey {field : List UInt8} {key : Key} (h : readKey u field = .ok key) :
    ∃ text, decode field = some text ∧ parseCacheKey u (strip text) = .ok key := by
  obtain ⟨text, htext, h⟩ := exists_of_bind_eq_ok h
  refine ⟨text, exists_of_orRaise htext, ?_⟩
  split at h
  · next key' hparse =>
    rw [hparse]
    exact congrArg Except.ok (Except.ok.inj h)
  · cases h

theorem keyFits_of_readKey {key key' : Key} (h : readKey u (keyField key.toString) = .ok key')
    (heq : key.Eq key') : KeyFits key := by
  obtain ⟨text, hdecode, hparse⟩ := exists_of_readKey h
  have hencode := encode_of_decode hdecode
  rcases Nat.lt_or_ge maxKeyLength (encode key.toString).length with hlong | hshort
  · have hprefix : text <+: key.toString := by
      refine prefix_of_encode_prefix ?_
      rw [hencode, keyField_of_lt hlong]
      exact take_prefix _ _
    have hwhole : strip text = key.toString :=
      Key.eq_toString_of_sublist hparse heq ((sublist_strip text).trans hprefix.sublist)
    have htext : text = key.toString := by
      refine hprefix.eq_of_length (Nat.le_antisymm hprefix.length_le ?_)
      rw [← hwhole]
      exact (sublist_strip text).length_le
    have hlength := congrArg length hencode
    rw [htext, length_keyField] at hlength
    omega
  · refine ⟨hshort, ?_⟩
    rw [keyField_of_le hshort, decode_encode] at hdecode
    rw [← Option.some.inj hdecode, strip_append_replicate] at hparse
    exact Key.eq_toString_of_sublist hparse heq (sublist_strip _)

end KeyField

namespace ClientMetaMessage

variable {m : ClientMetaMessage} {bytes : List UInt8}

theorem exists_of_serialize (h : m.serialize order = .ok bytes) :
    ∃ shape0 shape1 shape2 shape3 dtype location ints,
      m.shape = [shape0, shape1, shape2, shape3] ∧ dtypeToInt m.dtype = .ok dtype ∧
      locationToInt m.location = .ok location ∧
      packInts order 9 [m.command.value, m.length, m.fmt.value, dtype, location, shape0, shape1,
        shape2, shape3] = some ints ∧
      bytes = ints ++ keyField m.key.toString := by
  rw [serialize] at h
  split at h
  · cases h
  · split at h
    · next shape0 shape1 shape2 shape3 hshape =>
      obtain ⟨dtype, hdtype, h⟩ := exists_of_bind_eq_ok h
      obtain ⟨location, hlocation, h⟩ := exists_of_bind_eq_ok h
      obtain ⟨ints, hints, h⟩ := exists_of_bind_eq_ok h
      exact ⟨shape0, shape1, shape2, shape3, dtype, location, ints, hshape, hdtype, hlocation,
        exists_of_orRaise hints, (Except.ok.inj h).symm⟩
    · cases h

theorem length_serialize (h : m.serialize order = .ok bytes) : bytes.length = packlength := by
  obtain ⟨_, _, _, _, _, _, ints, _, _, _, hints, rfl⟩ := exists_of_serialize h
  rw [length_append, length_packInts hints, length_keyField, packlength]

theorem deserialize_serialize (h : m.serialize order = .ok bytes) :
    deserialize u order bytes =
      (readKey u (keyField m.key.toString)).map fun key => { m with key := key } := by
  have hlength := length_serialize h
  obtain ⟨shape0, shape1, shape2, shape3, dtype, location, ints, hshape, hdtype, hlocation, hints,
    rfl⟩ := exists_of_serialize h
  have hdrop : (ints ++ keyField m.key.toString).drop 36 = keyField m.key.toString :=
    drop_left' (length_packInts hints)
  rw [deserialize, if_pos hlength, unpackInts_packInts_append hints]
  dsimp only
  rw [hdrop, ClientCommand.ofValue_value]
  cases readKey u (keyField m.key.toString) with
  | error error => rfl
  | ok key =>
    change (do
      let fmt ← MemoryFormat.ofValue m.fmt.value
      let dtype ← intToDtype dtype
      let location ← intToLocation location
      return (⟨m.command, key, m.length, fmt, dtype, [shape0, shape1, shape2, shape3],
        location⟩ : ClientMetaMessage)) = Except.ok { m with key := key }
    rw [MemoryFormat.ofValue_value, intToDtype_dtypeToInt hdtype,
      intToLocation_locationToInt hlocation, ← hshape]
    rfl

theorem exists_deserialize_iff (hkey : m.key.RoundTrips u) (h : m.serialize order = .ok bytes) :
    (∃ m', deserialize u order bytes = .ok m' ∧ m.Eq m') ↔ KeyFits m.key := by
  rw [deserialize_serialize h]
  constructor
  · rintro ⟨m', hread, heq⟩
    cases hfield : readKey u (keyField m.key.toString) with
    | error error =>
      rw [hfield] at hread
      cases hread
    | ok key' =>
      rw [hfield] at hread
      obtain rfl := Except.ok.inj hread
      exact keyFits_of_readKey hfield heq.2.1
  · intro hfits
    obtain ⟨key', hread, heq⟩ := readKey_keyField hkey hfits
    rw [hread]
    exact ⟨{ m with key := key' }, rfl, rfl, heq, rfl, rfl, rfl, rfl, rfl⟩

end ClientMetaMessage

namespace ServerMetaMessage

theorem deserialize_serialize {m : ServerMetaMessage} {bytes : List UInt8}
    (h : m.serialize order = .ok bytes) :
    bytes.length = packlength ∧ deserialize order bytes = .ok m := by
  rw [serialize] at h
  split at h
  · next shape0 shape1 shape2 shape3 hshape =>
    obtain ⟨dtype, hdtype, h⟩ := exists_of_bind_eq_ok h
    obtain ⟨location, hlocation, h⟩ := exists_of_bind_eq_ok h
    have hints := exists_of_orRaise h
    have hlength : bytes.length = packlength := length_packInts hints
    have hread := unpackInts_packInts_append hints []
    rw [append_nil] at hread
    refine ⟨hlength, ?_⟩
    rw [deserialize, if_pos hlength, hread]
    dsimp only
    rw [ServerReturnCode.ofValue_value, MemoryFormat.ofValue_value, intToDtype_dtypeToInt hdtype,
      intToLocation_locationToInt hlocation, ← hshape]
    rfl
  · cases h

end ServerMetaMessage

namespace RemoteMetadata

theorem readGroups_groupParams {shapes : List (List ℤ)} {dtypes : List (Option TorchDtype)}
    {params : List ℤ} (h : groupParams shapes dtypes = .ok params) :
    readGroups params = .ok (shapes, dtypes) := by
  induction shapes generalizing dtypes params with
  | nil =>
    cases dtypes with
    | nil =>
      obtain rfl := Except.ok.inj h
      rw [readGroups]
    | cons dtype dtypes => cases h
  | cons shape shapes ih =>
    cases dtypes with
    | nil => cases h
    | cons dtype dtypes =>
      rw [groupParams.eq_def] at h
      dsimp only at h
      split at h
      · next shape0 shape1 shape2 shape3 =>
        obtain ⟨n, hdtype, h⟩ := exists_of_bind_eq_ok h
        obtain ⟨rest, hrest, h⟩ := exists_of_bind_eq_ok h
        obtain rfl := Except.ok.inj h
        rw [readGroups, intToDtype_dtypeToInt hdtype]
        simp only [drop_succ_cons, drop_zero, ih hrest]
        rfl
      · cases h

theorem deserialize_serialize_append {info : Option RemoteMetadataInfo} {m : RemoteMetadata}
    {bytes : List UInt8} (h : m.serialize order info = .ok bytes) (tail : List UInt8) :
    deserialize order info (bytes ++ tail) = .ok m := by
  obtain ⟨info', hinfo, hpack⟩ := exists_of_bind_eq_ok h
  obtain rfl := exists_of_orRaise hinfo
  obtain ⟨params, hprepare, hpack⟩ := exists_of_bind_eq_ok hpack
  obtain ⟨groups, hgroups, hprepare⟩ := exists_of_bind_eq_ok hprepare
  obtain rfl := Except.ok.inj hprepare
  have hints := exists_of_orRaise hpack
  have hlength : ¬ (bytes ++ tail).length < 4 * info'.fmtLength := by
    rw [length_append, length_packInts hints]
    omega
  rw [deserialize]
  change (if _ then _ else _) = _
  rw [if_neg hlength, unpackInts_packInts_append hints]
  dsimp only
  rw [MemoryFormat.ofValue_value, readGroups_groupParams hgroups]
  rfl

theorem length_serialize {numGroups : ℕ} {m : RemoteMetadata} {bytes : List UInt8}
    (h : m.serialize order (some (initRemoteMetadataInfo numGroups)) = .ok bytes) :
    bytes.length = (initRemoteMetadataInfo numGroups).bytes := by
  obtain ⟨info', hinfo, h⟩ := exists_of_bind_eq_ok h
  obtain rfl := Except.ok.inj hinfo
  obtain ⟨params, _, h⟩ := exists_of_bind_eq_ok h
  exact length_packInts (exists_of_orRaise h)

end RemoteMetadata

theorem metaMessages_roundTrip (u : UnicodeDigits) (order : ByteOrder) :
    (∀ (m : ClientMetaMessage) (bytes : List UInt8), m.key.RoundTrips u →
      m.serialize order = .ok bytes →
        bytes.length = ClientMetaMessage.packlength ∧
          ((∃ m', ClientMetaMessage.deserialize u order bytes = .ok m' ∧ m.Eq m') ↔
            KeyFits m.key)) ∧
    (∀ (m : ServerMetaMessage) (bytes : List UInt8), m.serialize order = .ok bytes →
      bytes.length = ServerMetaMessage.packlength ∧
        ServerMetaMessage.deserialize order bytes = .ok m) ∧
    ∀ (numGroups : ℕ) (m : RemoteMetadata) (bytes : List UInt8),
      m.serialize order (some (initRemoteMetadataInfo numGroups)) = .ok bytes →
        bytes.length = (initRemoteMetadataInfo numGroups).bytes ∧
          RemoteMetadata.deserialize order (some (initRemoteMetadataInfo numGroups)) bytes =
            .ok m := by
  refine ⟨?_, ?_, ?_⟩
  · intro m bytes hkey h
    exact ⟨m.length_serialize h, ClientMetaMessage.exists_deserialize_iff hkey h⟩
  · intro m bytes h
    exact ServerMetaMessage.deserialize_serialize h
  · intro numGroups m bytes h
    have hread := RemoteMetadata.deserialize_serialize_append h []
    rw [append_nil] at hread
    exact ⟨RemoteMetadata.length_serialize h, hread⟩

def existMessage (modelName : List Char) : ClientMetaMessage :=
  ⟨.exist, .chunk ⟨modelName, 1, 0, 255, .float16, none⟩, 0, .undefined, none, [0, 0, 0, 0], none⟩

theorem roundTrips_existMessage (modelName : List Char) (h : '@' ∉ modelName)
    (u : UnicodeDigits) : (existMessage modelName).key.RoundTrips u :=
  Key.roundTrips_of_clean u ⟨h, fun _ htag => absurd htag not_mem_nil⟩

def successMessage : ServerMetaMessage :=
  ⟨.success, 4096, .kv2ltd, some .bfloat16, [2, 4, 256, 8], some "LocalDiskBackend".toList⟩

def twoGroups : RemoteMetadata :=
  ⟨100, [[1, 2, 3, 4], [5, 6, 7, 8]], [some .uint8, some .float16], .kvMlaFmt⟩

theorem metaMessages_roundTrip_existMessage :
    (∃ bytes, (existMessage ['m']).serialize .little = .ok bytes ∧
      bytes.length = ClientMetaMessage.packlength ∧
      ((∃ m', ClientMetaMessage.deserialize Key.asciiOnly .little bytes = .ok m' ∧
        (existMessage ['m']).Eq m') ↔ KeyFits (existMessage ['m']).key)) ∧
    (∃ bytes, successMessage.serialize .little = .ok bytes ∧
      bytes.length = ServerMetaMessage.packlength ∧
      ServerMetaMessage.deserialize .little bytes = .ok successMessage) ∧
    ∃ bytes, twoGroups.serialize .little (some (initRemoteMetadataInfo 2)) = .ok bytes ∧
      bytes.length = (initRemoteMetadataInfo 2).bytes ∧
      RemoteMetadata.deserialize .little (some (initRemoteMetadataInfo 2)) bytes =
        .ok twoGroups := by
  have h := metaMessages_roundTrip Key.asciiOnly .little
  refine ⟨⟨_, rfl, ?_⟩, ⟨_, rfl, ?_⟩, ⟨_, rfl, ?_⟩⟩
  · exact h.1 (existMessage ['m']) _ (roundTrips_existMessage ['m'] (by decide) _) rfl
  · exact h.2.1 successMessage _ rfl
  · exact h.2.2 2 twoGroups _ rfl

def accentedName : List Char := replicate 80 'é'

theorem not_roundTrip_accentedName :
    ∃ bytes, (existMessage accentedName).serialize .little = .ok bytes ∧
      (existMessage accentedName).key.RoundTrips Key.asciiOnly ∧
      ¬ ∃ m', ClientMetaMessage.deserialize Key.asciiOnly .little bytes = .ok m' ∧
        (existMessage accentedName).Eq m' := by
  have hkey := roundTrips_existMessage accentedName (by decide) Key.asciiOnly
  refine ⟨_, rfl, hkey, ?_⟩
  rw [ClientMetaMessage.exists_deserialize_iff hkey rfl]
  exact fun h => absurd h.1 (by decide +kernel)

end LMCache.Protocol
