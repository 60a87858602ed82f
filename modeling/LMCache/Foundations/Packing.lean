import Mathlib.Algebra.Group.Nat.Defs
import Mathlib.Data.List.Infix

namespace LMCache

open List Option

inductive ByteOrder where
  | little
  | big
deriving DecidableEq

namespace Struct

variable (order : ByteOrder) (bytes : List UInt8)

def arrange : List UInt8 :=
  match order with
  | .little => bytes
  | .big => bytes.reverse

def intBytes (n : ℕ) : List UInt8 :=
  [UInt8.ofNat n, UInt8.ofNat (n / 2 ^ 8), UInt8.ofNat (n / 2 ^ 16), UInt8.ofNat (n / 2 ^ 24)]

def readBytes : ℕ := bytes.foldr (fun b acc => b.toNat + 256 * acc) 0

def packInt (n : ℤ) : Option (List UInt8) :=
  if -2147483648 ≤ n ∧ n ≤ 2147483647 then
    some (arrange order (intBytes (n % 4294967296).toNat))
  else none

def unpackInt : ℤ :=
  let value : ℤ := readBytes (arrange order bytes)
  if value ≤ 2147483647 then value else value - 4294967296

def packInts (order : ByteOrder) : ℕ → List ℤ → Option (List UInt8)
  | 0, [] => some []
  | count + 1, n :: ns => do
      let bytes ← packInt order n
      let rest ← packInts order count ns
      return bytes ++ rest
  | _, _ => none

def unpackInts (order : ByteOrder) : ℕ → List UInt8 → List ℤ
  | 0, _ => []
  | count + 1, bytes => unpackInt order (bytes.take 4) :: unpackInts order count (bytes.drop 4)

def packField (width : ℕ) (bytes : List UInt8) : List UInt8 :=
  bytes.take width ++ replicate (width - bytes.length) 0

theorem arrange_arrange : arrange order (arrange order bytes) = bytes := by
  cases order with
  | little => rfl
  | big => exact reverse_reverse bytes

theorem length_arrange : (arrange order bytes).length = bytes.length := by
  cases order with
  | little => rfl
  | big => exact length_reverse

theorem readBytes_intBytes {n : ℕ} (h : n < 4294967296) : readBytes (intBytes n) = n := by
  simp only [readBytes, intBytes, foldr_cons, foldr_nil, UInt8.toNat_ofNat']
  omega

section Ints

variable {order : ByteOrder}

theorem length_packInt {n : ℤ} {bytes : List UInt8} (h : packInt order n = some bytes) :
    bytes.length = 4 := by
  rw [packInt, ite_none_right_eq_some, some.injEq] at h
  rw [← h.2, length_arrange]
  rfl

theorem unpackInt_packInt {n : ℤ} {bytes : List UInt8} (h : packInt order n = some bytes) :
    unpackInt order bytes = n := by
  rw [packInt, ite_none_right_eq_some, some.injEq] at h
  obtain ⟨⟨hlow, hhigh⟩, rfl⟩ := h
  rw [unpackInt, arrange_arrange, readBytes_intBytes (by omega)]
  split
  · omega
  · omega

variable {ns : List ℤ} {count : ℕ}

theorem exists_of_packInts_cons {n : ℤ} {bytes : List UInt8}
    (h : packInts order (count + 1) (n :: ns) = some bytes) :
    ∃ first rest, packInt order n = some first ∧ packInts order count ns = some rest ∧
      bytes = first ++ rest := by
  rw [packInts] at h
  obtain ⟨first, hfirst, h⟩ := bind_eq_some_iff.mp h
  obtain ⟨rest, hrest, h⟩ := bind_eq_some_iff.mp h
  exact ⟨first, rest, hfirst, hrest, (some.inj h).symm⟩

theorem length_packInts {bytes : List UInt8} (h : packInts order count ns = some bytes) :
    bytes.length = 4 * count := by
  induction count generalizing ns bytes with
  | zero =>
    cases ns with
    | nil =>
      rw [← some.inj h]
      rfl
    | cons n ns => cases h
  | succ count ih =>
    cases ns with
    | nil => cases h
    | cons n ns =>
      obtain ⟨first, rest, hfirst, hrest, rfl⟩ := exists_of_packInts_cons h
      rw [length_append, length_packInt hfirst, ih hrest]
      omega

theorem unpackInts_packInts_append {bytes : List UInt8} (h : packInts order count ns = some bytes)
    (tail : List UInt8) :
    unpackInts order count (bytes ++ tail) = ns := by
  induction count generalizing ns bytes with
  | zero =>
    cases ns with
    | nil => rfl
    | cons n ns => cases h
  | succ count ih =>
    cases ns with
    | nil => cases h
    | cons n ns =>
      obtain ⟨first, rest, hfirst, hrest, rfl⟩ := exists_of_packInts_cons h
      have hlength := length_packInt hfirst
      rw [unpackInts, append_assoc, take_left' hlength, drop_left' hlength,
        unpackInt_packInt hfirst, ih hrest]

end Ints

theorem length_packField (width : ℕ) (bytes : List UInt8) :
    (packField width bytes).length = width := by
  rw [packField, length_append, length_take, length_replicate]
  omega

end Struct

namespace Utf8

def encode (s : List Char) : List UInt8 := s.flatMap String.utf8EncodeChar

def decode (bytes : List UInt8) : Option (List Char) :=
  bytes.toByteArray.utf8Decode?.map Array.toList

theorem encode_append (s t : List Char) : encode (s ++ t) = encode s ++ encode t :=
  flatMap_append

theorem decode_encode (s : List Char) : decode (encode s) = some s := by
  have h : (encode s).toByteArray.utf8Decode? = some s.toArray := utf8Decode?_utf8Encode
  rw [decode, h]
  rfl

theorem encode_of_decode {bytes : List UInt8} {s : List Char} (h : decode bytes = some s) :
    encode s = bytes := by
  obtain ⟨chars, hchars, rfl⟩ := map_eq_some_iff.mp h
  have hvalid : bytes.toByteArray.utf8Decode?.isSome = true := by rw [hchars]; rfl
  have hget := ByteArray.utf8Encode_get_utf8Decode? (h := hvalid)
  simp only [hchars, get_some] at hget
  exact toByteArray_inj.mp hget

theorem prefix_of_encode_prefix {s t : List Char} (h : encode s <+: encode t) : s <+: t := by
  obtain ⟨rest, hrest⟩ := h
  refine isPrefix_of_utf8Encode_append_eq_utf8Encode rest.toByteArray ?_
  rw [utf8Encode, utf8Encode, ← toByteArray_append]
  exact congrArg toByteArray hrest

theorem encode_replicate_blank (n : ℕ) : encode (replicate n ' ') = replicate n 32 := by
  induction n with
  | zero => rfl
  | succ n ih =>
    rw [replicate_succ, encode, flatMap_cons, replicate_succ]
    exact congrArg (cons 32) ih

end Utf8

end LMCache
