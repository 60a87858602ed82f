import Mathlib.Data.List.Range
import Mathlib.Algebra.Ring.Nat
import Mathlib.Data.List.Nodup

namespace LMCache

open List

structure Bitmap where
  size : ℕ
  data : List (BitVec 8)
  lengthEq : data.length = if size = 0 then 0 else (size - 1) / 8 + 1
deriving DecidableEq

variable (b : Bitmap) (bytes : List (BitVec 8))

namespace Bitmap

def byteIndex (bitIndex : ℕ) : ℕ := bitIndex / 8

def bitOffset (bitIndex : ℕ) : ℕ := bitIndex % 8

def lowMask (remaining : ℕ) : BitVec 8 := (1#8 <<< remaining) - 1#8

def ofSize (size : ℕ) : Bitmap where
  size := size
  data := replicate (if size = 0 then 0 else (size - 1) / 8 + 1) 0#8
  lengthEq := length_replicate

def ofPrefix (size prefixBits : ℕ) : Bitmap :=
  let prefixBits := min prefixBits size
  let fullBytes := prefixBits / 8
  let remaining := prefixBits % 8
  { size := size
    data := (range (if size = 0 then 0 else (size - 1) / 8 + 1)).map (fun i =>
      if i < fullBytes then 0xFF#8
      else if i = fullBytes ∧ 0 < remaining then lowMask remaining
      else 0#8)
    lengthEq := by simp }

def set (index : ℕ) : Bitmap :=
  if b.size ≤ index then b
  else
    { b with
      data := b.data.modify (byteIndex index) (fun byte => byte ||| (1#8 <<< bitOffset index))
      lengthEq := by rw [length_modify, b.lengthEq] }

def clear (index : ℕ) : Bitmap :=
  if b.size ≤ index then b
  else
    { b with
      data := b.data.modify (byteIndex index) (fun byte => byte &&& ~~~(1#8 <<< bitOffset index))
      lengthEq := by rw [length_modify, b.lengthEq] }

def test (index : ℕ) : Bool :=
  if b.size ≤ index then false
  else ((b.data.getD (byteIndex index) 0#8) >>> bitOffset index).getLsbD 0

def builtinPopcount (byte : BitVec 8) : ℕ := (range 8).countP (fun j => byte.getLsbD j)

def builtinCtz (byte : BitVec 8) : ℕ := (range 8).findIdx (fun j => byte.getLsbD j)

def lastByte : BitVec 8 := (b.data.getLast?.getD 0#8) &&& lowMask (b.size % 8)

def popcount : ℕ :=
  let count := ((b.data.take (b.size / 8)).map builtinPopcount).sum
  if 0 < b.size % 8 then count + builtinPopcount b.lastByte else count

def leadingZeros : List (BitVec 8) → ℕ × Bool
  | [] => (0, false)
  | byte :: rest =>
      if byte = 0#8 then (8 + (leadingZeros rest).1, (leadingZeros rest).2)
      else (builtinCtz byte, true)

def clz : ℕ :=
  let (count, found) := leadingZeros (b.data.take (b.size / 8))
  if found then count
  else if 0 < b.size % 8 then
    if b.lastByte = 0#8 then count + b.size % 8 else count + builtinCtz b.lastByte
  else count

def not : Bitmap :=
  let data := b.data.map (fun byte => ~~~byte)
  { b with
    data := if 0 < b.size % 8 then
      data.modify (data.length - 1) (fun byte => byte &&& lowMask (b.size % 8)) else data
    lengthEq := by
      simp only [data, apply_ite length, length_modify, length_map, ite_self, b.lengthEq] }

def clo : ℕ := b.not.clz

theorem lengthEq_min {a b : Bitmap} (f : BitVec 8 → BitVec 8 → BitVec 8) :
    (zipWith f a.data b.data).length =
      if min a.size b.size = 0 then 0 else (min a.size b.size - 1) / 8 + 1 := by
  rw [length_zipWith, a.lengthEq, b.lengthEq]
  split_ifs <;> omega

def and (a b : Bitmap) : Bitmap where
  size := min a.size b.size
  data := zipWith (fun x y => x &&& y) a.data b.data
  lengthEq := lengthEq_min _

def or (a b : Bitmap) : Bitmap where
  size := min a.size b.size
  data := zipWith (fun x y => x ||| y) a.data b.data
  lengthEq := lengthEq_min _

def setBits : ℕ → BitVec 8 → List ℕ
  | 0, _ => []
  | n + 1, byte =>
      if byte = 0#8 then [] else builtinCtz byte :: setBits n (byte &&& (byte - 1#8))

def getIndices : List ℕ :=
  (b.data.zipIdx.flatMap (fun p => (setBits 8 p.1).map (fun bit => p.2 * 8 + bit))).filter
    (fun idx => decide (idx < b.size))

def gather {α : Type} (b : Bitmap) (items : List α) : List α :=
  b.getIndices.filterMap (fun idx => items[idx]?)

def bit (i : ℕ) : Bool := (bytes.getD (i / 8) 0#8).getLsbD (i % 8)

theorem getLsbD_lowMask : ∀ r < 8, ∀ j < 8, (lowMask r).getLsbD j = decide (j < r) := by
  decide

theorem getLsbD_one_shiftLeft :
    ∀ r < 8, ∀ j < 8, ((1#8 : BitVec 8) <<< r).getLsbD j = decide (j = r) := by
  decide

theorem setBits_eq : ∀ byte : BitVec 8,
    setBits 8 byte = (range 8).filter (fun j => byte.getLsbD j) := by
  decide +kernel

theorem builtinCtz_spec : ∀ byte : BitVec 8, byte ≠ 0#8 →
    builtinCtz byte < 8 ∧ byte.getLsbD (builtinCtz byte) = true ∧
      ∀ j < builtinCtz byte, byte.getLsbD j = false := by
  decide +kernel

theorem size_le : b.size ≤ 8 * b.data.length := by
  rw [b.lengthEq]
  split_ifs <;> omega

variable {i : ℕ}

theorem byte_lt {b : Bitmap} (h : i < b.size) : i / 8 < b.data.length := by
  have := b.size_le
  omega

theorem test_eq (i : ℕ) : b.test i = (decide (i < b.size) && bit b.data i) := by
  simp only [test, bit, byteIndex, bitOffset]
  by_cases h : i < b.size
  · simp [h, Nat.not_le.mpr h]
  · simp [h, Nat.not_lt.mp h]

theorem test_of_le {b : Bitmap} (h : b.size ≤ i) : b.test i = false := by
  simp [test, h]

theorem test_of_lt {b : Bitmap} (h : i < b.size) : b.test i = bit b.data i := by
  simp [test_eq, h]

theorem lt_of_test {b : Bitmap} (h : b.test i = true) : i < b.size := by
  by_contra hn
  simp [test_of_le (Nat.not_lt.mp hn)] at h

@[simp] theorem size_ofSize (n : ℕ) : (ofSize n).size = n := rfl

@[simp] theorem size_ofPrefix (n k : ℕ) : (ofPrefix n k).size = n := rfl

@[simp] theorem size_and (a b : Bitmap) : (a.and b).size = min a.size b.size := rfl

@[simp] theorem size_or (a b : Bitmap) : (a.or b).size = min a.size b.size := rfl

@[simp] theorem size_not : b.not.size = b.size := rfl

@[simp] theorem size_set (i : ℕ) : (b.set i).size = b.size := by
  simp only [set]
  split_ifs <;> rfl

@[simp] theorem test_ofSize (n i : ℕ) : (ofSize n).test i = false := by
  rw [test_eq]
  simp only [ofSize, bit, getD_eq_getElem?_getD, getElem?_replicate]
  split_ifs <;> simp

@[simp] theorem test_ofPrefix (n k i : ℕ) : (ofPrefix n k).test i = decide (i < n ∧ i < k) := by
  by_cases hi : i < n
  · have hlen : i / 8 < if n = 0 then 0 else (n - 1) / 8 + 1 := by
      split_ifs <;> omega
    rw [test_of_lt (by simpa using hi)]
    simp only [bit, ofPrefix, getD_eq_getElem?_getD, getElem?_map,
      getElem?_range hlen, Option.map_some, Option.getD_some]
    split_ifs with h1 h2
    · have hmod : i % 8 < 8 := Nat.mod_lt _ (by omega)
      have hff : ∀ j < 8, (0xFF#8 : BitVec 8).getLsbD j = true := by decide
      rw [hff _ hmod]
      have : i < k := by omega
      simp [hi, this]
    · rw [getLsbD_lowMask _ (Nat.mod_lt _ (by omega)) _ (Nat.mod_lt _ (by omega))]
      congr 1
      apply propext
      omega
    · have : ¬ i < k := by omega
      simp [this]
  · rw [test_of_le (by simpa using hi)]
    simp [hi]

theorem bit_zipWith {f : BitVec 8 → BitVec 8 → BitVec 8} {g : Bool → Bool → Bool}
    (hf : ∀ x y j, j < 8 → (f x y).getLsbD j = g (x.getLsbD j) (y.getLsbD j))
    {xs ys : List (BitVec 8)} (hx : i / 8 < xs.length) (hy : i / 8 < ys.length) :
    bit (zipWith f xs ys) i = g (bit xs i) (bit ys i) := by
  simp only [bit, getD_eq_getElem?_getD, getElem?_zipWith, getElem?_eq_getElem hx,
    getElem?_eq_getElem hy, Option.getD_some]
  exact hf _ _ _ (Nat.mod_lt _ (by omega))

@[simp] theorem test_and (a b : Bitmap) (i : ℕ) : (a.and b).test i = (a.test i && b.test i) := by
  by_cases hi : i < min a.size b.size
  · have ha : i < a.size := by omega
    have hb : i < b.size := by omega
    rw [test_of_lt (by rwa [size_and]), test_of_lt ha, test_of_lt hb]
    exact bit_zipWith (fun x y j _ => BitVec.getLsbD_and) (byte_lt ha) (byte_lt hb)
  · rw [test_of_le (by rw [size_and]; omega)]
    rcases Nat.lt_or_ge i a.size with ha | ha
    · rw [test_of_le (b := b) (by omega), Bool.and_false]
    · rw [test_of_le ha, Bool.false_and]

theorem test_or {a b : Bitmap} (h : a.size = b.size) (i : ℕ) :
    (a.or b).test i = (a.test i || b.test i) := by
  by_cases hi : i < a.size
  · have hb : i < b.size := h ▸ hi
    rw [test_of_lt (by simpa [← h] using hi), test_of_lt hi, test_of_lt hb]
    exact bit_zipWith (fun x y j _ => BitVec.getLsbD_or) (byte_lt hi) (byte_lt hb)
  · rw [test_of_le (by simpa [← h] using hi), test_of_le (by omega), test_of_le (by omega)]
    rfl

theorem test_set (i j : ℕ) : (b.set i).test j = (b.test j || decide (i = j ∧ i < b.size)) := by
  by_cases hi : i < b.size
  · by_cases hj : j < b.size
    · rw [test_of_lt (by simpa using hj), test_of_lt hj]
      simp only [set, if_neg (Nat.not_le.mpr hi), bit, getD_eq_getElem?_getD, getElem?_modify,
        getElem?_eq_getElem (byte_lt hj), byteIndex, bitOffset]
      by_cases hb : i / 8 = j / 8
      · simp only [hb, if_true, Option.map_eq_map, Option.map_some, Option.getD_some,
          BitVec.getLsbD_or]
        rw [getLsbD_one_shiftLeft _ (Nat.mod_lt _ (by omega)) _ (Nat.mod_lt _ (by omega))]
        congr 2
        apply propext
        omega
      · have hne : i ≠ j := fun h => hb (h ▸ rfl)
        simp [hb, hne]
    · rw [test_of_le (by simpa using hj), test_of_le (by omega)]
      have : ¬ i = j := by omega
      simp [this]
  · simp [set, Nat.not_lt.mp hi, hi]

end Bitmap

namespace Bitmap

theorem getLast?_eq {b : Bitmap} (h : 0 < b.size % 8) :
    b.data.length = b.size / 8 + 1 ∧ b.data.getLast?.getD 0#8 = b.data.getD (b.size / 8) 0#8 := by
  have hlen : b.data.length = b.size / 8 + 1 := by
    rw [b.lengthEq]
    split_ifs <;> omega
  refine ⟨hlen, ?_⟩
  rw [getLast?_eq_getElem?, hlen, Nat.add_sub_cancel, getD_eq_getElem?_getD]

theorem getLsbD_lastByte {b : Bitmap} (h : 0 < b.size % 8) {j : ℕ} (hj : j < 8) :
    b.lastByte.getLsbD j = (decide (j < b.size % 8) && bit b.data (8 * (b.size / 8) + j)) := by
  have hdiv : (8 * (b.size / 8) + j) / 8 = b.size / 8 := by omega
  have hmod : (8 * (b.size / 8) + j) % 8 = j := by omega
  rw [lastByte, BitVec.getLsbD_and, (getLast?_eq h).2,
    getLsbD_lowMask _ (Nat.mod_lt _ (by omega)) _ hj, bit, hdiv, hmod, Bool.and_comm]

@[simp] theorem test_not (i : ℕ) : b.not.test i = (decide (i < b.size) && !b.test i) := by
  by_cases hi : i < b.size
  · have hlt := byte_lt hi
    rw [test_of_lt (by simpa using hi), test_of_lt hi]
    simp only [hi, decide_true, Bool.true_and, not, bit, getD_eq_getElem?_getD]
    by_cases hrem : 0 < b.size % 8
    · obtain ⟨hlen, _⟩ := getLast?_eq hrem
      rw [if_pos hrem, getElem?_modify, getElem?_map, getElem?_eq_getElem hlt]
      by_cases hlast : (b.data.map (fun byte => ~~~byte)).length - 1 = i / 8
      · have hmod : i % 8 < b.size % 8 := by
          rw [length_map, hlen] at hlast
          omega
        simp only [hlast, if_true, Option.map_eq_map, Option.map_some, Option.getD_some,
          BitVec.getLsbD_and, BitVec.getLsbD_not]
        rw [getLsbD_lowMask _ (Nat.mod_lt _ (by omega)) _ (Nat.mod_lt _ (by omega))]
        have h8 : i % 8 < 8 := Nat.mod_lt _ (by omega)
        simp [h8, hmod]
      · have h8 : i % 8 < 8 := Nat.mod_lt _ (by omega)
        simp only [if_neg hlast, Option.map_eq_map, Option.map_some, Option.getD_some,
          BitVec.getLsbD_not, decide_eq_true h8, Bool.true_and]
    · have h8 : i % 8 < 8 := Nat.mod_lt _ (by omega)
      simp [hrem, getElem?_eq_getElem hlt, h8]
  · rw [test_of_le (by simpa using hi)]
    simp [hi]

theorem bit_cons (byte : BitVec 8) (bytes : List (BitVec 8)) (i : ℕ) :
    bit (byte :: bytes) i = if i < 8 then byte.getLsbD i else bit bytes (i - 8) := by
  split_ifs with h
  · have hdiv : i / 8 = 0 := by omega
    have hmod : i % 8 = i := by omega
    simp [bit, hdiv, hmod]
  · have hdiv : i / 8 = (i - 8) / 8 + 1 := by omega
    have hmod : i % 8 = (i - 8) % 8 := by omega
    simp [bit, hdiv, hmod]

theorem getLsbD_zero (j : ℕ) : (0#8 : BitVec 8).getLsbD j = false := by simp

theorem leadingZeros_spec :
    (∀ i < (leadingZeros bytes).1, bit bytes i = false) ∧
      ((leadingZeros bytes).2 = true →
        (leadingZeros bytes).1 < 8 * bytes.length ∧ bit bytes (leadingZeros bytes).1 = true) ∧
      ((leadingZeros bytes).2 = false → (leadingZeros bytes).1 = 8 * bytes.length) := by
  induction bytes with
  | nil => simp [leadingZeros]
  | cons byte bytes ih =>
    obtain ⟨hbefore, hfound, hnone⟩ := ih
    simp only [leadingZeros]
    by_cases h0 : byte = 0#8
    · subst h0
      rw [if_pos rfl]
      refine ⟨fun i hi => ?_, fun hf => ?_, fun hf => ?_⟩
      · rw [bit_cons]
        split_ifs with h8
        · exact getLsbD_zero i
        · exact hbefore (i - 8) (by simp only at hi; omega)
      · obtain ⟨hlt, hbit⟩ := hfound hf
        refine ⟨by simp only [length_cons]; omega, ?_⟩
        simp only [bit_cons, Nat.add_sub_cancel_left, hbit]
        split_ifs with h8
        · omega
        · rfl
      · simp only [hnone hf, length_cons]
        omega
    · obtain ⟨hlt, hset, hclear⟩ := builtinCtz_spec byte h0
      rw [if_neg h0]
      refine ⟨fun i hi => ?_, fun _ => ?_, by simp⟩
      · rw [bit_cons, if_pos (by simp only at hi; omega)]
        exact hclear i hi
      · refine ⟨by simp only [length_cons]; omega, ?_⟩
        simp only [bit_cons, if_pos hlt, hset]

theorem bit_take {bytes : List (BitVec 8)} {n i : ℕ} (h : i < 8 * n) :
    bit (bytes.take n) i = bit bytes i := by
  have : i / 8 < n := by omega
  simp [bit, this]

theorem bit_eq_false_of_lastByte {b : Bitmap} (h : 0 < b.size % 8) {j : ℕ} (hj : j < b.size % 8)
    (h0 : b.lastByte.getLsbD j = false) : b.test (8 * (b.size / 8) + j) = false := by
  have h8 : b.size % 8 < 8 := Nat.mod_lt _ (by omega)
  rw [getLsbD_lastByte h (by omega), decide_eq_true hj, Bool.true_and] at h0
  rw [test_eq, h0, Bool.and_false]

theorem clz_spec :
    b.clz ≤ b.size ∧ (∀ i < b.clz, b.test i = false) ∧ (b.clz < b.size → b.test b.clz = true) := by
  obtain ⟨hbefore, hfound, hnone⟩ := leadingZeros_spec (b.data.take (b.size / 8))
  have hlen : (b.data.take (b.size / 8)).length = b.size / 8 := by
    rw [length_take, b.lengthEq]
    split_ifs <;> omega
  rw [hlen] at hfound hnone
  have hfalse : ∀ i < (leadingZeros (b.data.take (b.size / 8))).1, i < 8 * (b.size / 8) →
      b.test i = false := by
    intro i hi hlt
    have := hbefore i hi
    rw [bit_take hlt] at this
    rw [test_eq, this, Bool.and_false]
  simp only [clz]
  by_cases hf : (leadingZeros (b.data.take (b.size / 8))).2 = true
  · obtain ⟨hlt, hbit⟩ := hfound hf
    rw [if_pos hf]
    rw [bit_take hlt] at hbit
    refine ⟨by omega, fun i hi => hfalse i hi (by omega), fun hs => ?_⟩
    rw [test_of_lt hs, hbit]
  · have hcount := hnone (by simpa using hf)
    rw [if_neg hf, hcount]
    rw [hcount] at hfalse
    by_cases hrem : 0 < b.size % 8
    · rw [if_pos hrem]
      by_cases h0 : b.lastByte = 0#8
      · rw [if_pos h0]
        refine ⟨by omega, fun i hi => ?_, fun hs => by omega⟩
        by_cases hlt : i < 8 * (b.size / 8)
        · exact hfalse i hlt hlt
        · have := bit_eq_false_of_lastByte hrem (j := i - 8 * (b.size / 8)) (by omega)
            (by rw [h0]; exact getLsbD_zero _)
          rwa [Nat.add_sub_cancel' (by omega)] at this
      · obtain ⟨hlt8, hset, hclear⟩ := builtinCtz_spec b.lastByte h0
        rw [if_neg h0]
        rw [getLsbD_lastByte hrem hlt8, Bool.and_eq_true, decide_eq_true_eq] at hset
        refine ⟨by omega, fun i hi => ?_, fun hs => by rw [test_of_lt hs, hset.2]⟩
        by_cases hlt : i < 8 * (b.size / 8)
        · exact hfalse i hlt hlt
        · have := bit_eq_false_of_lastByte hrem (j := i - 8 * (b.size / 8)) (by omega)
            (hclear _ (by omega))
          rwa [Nat.add_sub_cancel' (by omega)] at this
    · rw [if_neg hrem]
      exact ⟨by omega, fun i hi => hfalse i hi hi, fun hs => by omega⟩

theorem clo_spec :
    b.clo ≤ b.size ∧ (∀ i < b.clo, b.test i = true) ∧ (b.clo < b.size → b.test b.clo = false) := by
  obtain ⟨hle, hbefore, hat⟩ := b.not.clz_spec
  simp only [clo] at *
  rw [size_not] at hle hat
  refine ⟨hle, fun i hi => ?_, fun hlt => ?_⟩
  · have := hbefore i hi
    rw [test_not, decide_eq_true (by omega : i < b.size)] at this
    simpa using this
  · have := hat hlt
    rw [test_not, decide_eq_true hlt] at this
    simpa using this

theorem range_blocks (p : ℕ → Bool) (n : ℕ) :
    (range (8 * n)).filter p =
      (range n).flatMap (fun i => ((range 8).filter (fun j => p (8 * i + j))).map (8 * i + ·)) := by
  induction n with
  | zero => rfl
  | succ n ih =>
    rw [Nat.mul_succ, range_add, filter_append, ih, range_succ (n := n),
      flatMap_append, flatMap_singleton, filter_map]
    rfl

theorem zipIdx_blocks (s : ℕ) :
    (bytes.zipIdx s).flatMap (fun p => (setBits 8 p.1).map (fun bit => p.2 * 8 + bit)) =
      (range bytes.length).flatMap (fun i =>
        ((range 8).filter (fun j => (bytes.getD i 0#8).getLsbD j)).map (8 * (s + i) + ·)) := by
  induction bytes generalizing s with
  | nil => rfl
  | cons byte bytes ih =>
    rw [zipIdx_cons, flatMap_cons, ih, length_cons,
      range_succ_eq_map (n := bytes.length), flatMap_cons, flatMap_map, setBits_eq]
    congr 1
    · simp [Nat.mul_comm]
    · refine flatMap_congr fun i _ => ?_
      rw [getD_cons_succ, Nat.add_assoc, Nat.add_comm 1 i]

theorem getIndices_eq : b.getIndices = (range b.size).filter b.test := by
  have hblocks : b.data.zipIdx.flatMap (fun p => (setBits 8 p.1).map (fun bit => p.2 * 8 + bit)) =
      (range (8 * b.data.length)).filter (bit b.data) := by
    rw [zipIdx_blocks, range_blocks]
    refine flatMap_congr fun i _ => ?_
    rw [Nat.zero_add]
    congr 1
    refine filter_congr fun j hj => ?_
    have h8 := mem_range.mp hj
    have hdiv : (8 * i + j) / 8 = i := by omega
    have hmod : (8 * i + j) % 8 = j := by omega
    rw [bit, hdiv, hmod]
  obtain ⟨extra, hextra⟩ := Nat.exists_eq_add_of_le b.size_le
  rw [getIndices, hblocks, hextra, filter_filter, range_add, filter_append]
  have hnone : ((range extra).map (b.size + ·)).filter
      (fun i => decide (i < b.size) && bit b.data i) = [] := by
    rw [filter_eq_nil_iff]
    intro i hi
    obtain ⟨j, _, rfl⟩ := mem_map.mp hi
    simp
  rw [hnone, append_nil]
  exact filter_congr fun i _ => (test_eq b i).symm

theorem mem_getIndices {b : Bitmap} {i : ℕ} : i ∈ b.getIndices ↔ b.test i = true := by
  rw [getIndices_eq, mem_filter, mem_range]
  exact ⟨fun h => h.2, fun h => ⟨lt_of_test h, h⟩⟩

theorem nodup_getIndices : b.getIndices.Nodup := by
  rw [getIndices_eq]
  exact nodup_range.filter _

theorem countP_blocks (n : ℕ) (h : n ≤ bytes.length) :
    ((bytes.take n).map builtinPopcount).sum = (range (8 * n)).countP (bit bytes) := by
  induction n with
  | zero => rfl
  | succ n ih =>
    have hlt : n < bytes.length := by omega
    rw [Nat.mul_succ, range_add, countP_append, ← ih (by omega), take_succ_eq_append_getElem hlt,
      map_append, sum_append, countP_map]
    congr 1
    simp only [map_cons, map_nil, sum_cons, sum_nil, Nat.add_zero, builtinPopcount]
    refine countP_congr fun j hj => ?_
    have h8 := mem_range.mp hj
    have hdiv : (8 * n + j) / 8 = n := by omega
    have hmod : (8 * n + j) % 8 = j := by omega
    simp [bit, hdiv, hmod, getElem?_eq_getElem hlt]

theorem popcount_eq : b.popcount = (range b.size).countP b.test := by
  have hle : b.size / 8 ≤ b.data.length := by
    rw [b.lengthEq]
    split_ifs <;> omega
  have hfull : (range (8 * (b.size / 8))).countP (bit b.data) =
      (range (8 * (b.size / 8))).countP b.test := by
    refine countP_congr fun i hi => ?_
    have := mem_range.mp hi
    rw [test_of_lt (by omega)]
  have hsize : b.size = 8 * (b.size / 8) + b.size % 8 := (Nat.div_add_mod _ _).symm
  simp only [popcount, countP_blocks _ _ hle, hfull]
  split_ifs with hrem
  · conv_rhs => rw [hsize, range_add, countP_append, countP_map]
    congr 1
    have h8 : range 8 = range (b.size % 8) ++
        (range (8 - b.size % 8)).map (b.size % 8 + ·) := by
      rw [← range_add]
      congr 1
      omega
    rw [builtinPopcount, h8, countP_append]
    have hhigh : ((range (8 - b.size % 8)).map (b.size % 8 + ·)).countP
        (fun j => b.lastByte.getLsbD j) = 0 := by
      rw [countP_eq_zero]
      intro j hj
      obtain ⟨i, hi, rfl⟩ := mem_map.mp hj
      have := mem_range.mp hi
      rw [getLsbD_lastByte hrem (by omega)]
      simp
    rw [hhigh, Nat.add_zero]
    refine countP_congr fun j hj => ?_
    have hj' := mem_range.mp hj
    rw [getLsbD_lastByte hrem (by omega), decide_eq_true hj', Bool.true_and, Function.comp_apply,
      test_of_lt (by omega)]
  · have h0 : b.size % 8 = 0 := by omega
    rw [h0, Nat.add_zero] at hsize
    rw [← hsize]

theorem popcount_eq_zero {b : Bitmap} : b.popcount = 0 ↔ ∀ i, b.test i = false := by
  rw [popcount_eq, countP_eq_zero]
  simp only [mem_range, Bool.not_eq_true]
  exact ⟨fun h i => (Nat.lt_or_ge i b.size).elim (h i) test_of_le, fun h i _ => h i⟩

variable {α : Type} {items : List α}

theorem mem_gather {b : Bitmap} {x : α} :
    x ∈ b.gather items ↔ ∃ i, b.test i = true ∧ items[i]? = some x := by
  simp [gather, mem_getIndices]

theorem eq_of_getElem? (hnodup : items.Nodup) {i j : ℕ} {x : α} (hi : items[i]? = some x)
    (hj : items[j]? = some x) : i = j := by
  obtain ⟨hlt, hx⟩ := List.getElem?_eq_some_iff.mp hi
  obtain ⟨hlt', hx'⟩ := List.getElem?_eq_some_iff.mp hj
  exact (List.Nodup.getElem_inj_iff hnodup).mp (hx.trans hx'.symm)

theorem mem_take_iff {ks : List α} (hnodup : ks.Nodup) {i n : ℕ} {k : α} (hi : ks[i]? = some k) :
    k ∈ ks.take n ↔ i < n := by
  rw [mem_iff_getElem?]
  constructor
  · rintro ⟨j, hj⟩
    rw [getElem?_take] at hj
    split_ifs at hj with hlt
    exact eq_of_getElem? hnodup hi hj ▸ hlt
  · intro hlt
    exact ⟨i, by rw [getElem?_take, if_pos hlt, hi]⟩

theorem mem_gather_iff {ks : List α} (hnodup : ks.Nodup) {b : Bitmap} {i : ℕ} {k : α}
    (hi : ks[i]? = some k) : k ∈ b.gather ks ↔ b.test i = true := by
  rw [mem_gather]
  constructor
  · rintro ⟨j, htest, hj⟩
    exact eq_of_getElem? hnodup hi hj ▸ htest
  · exact fun htest => ⟨i, htest, hi⟩

theorem nodup_gather {b : Bitmap} (hnodup : items.Nodup) : (b.gather items).Nodup :=
  List.Nodup.filterMap (fun _ _ _ hi hj => eq_of_getElem? hnodup hi hj) b.nodup_getIndices

theorem gather_diff_perm {b c : Bitmap} (hnodup : items.Nodup) (hsize : c.size = b.size)
    (hsub : ∀ i, c.test i = true → b.test i = true) :
    ((b.and c.not).gather items ++ c.gather items).Perm (b.gather items) := by
  have hdisjoint : List.Disjoint ((b.and c.not).gather items) (c.gather items) := by
    intro x hx hx'
    obtain ⟨i, hi, hxi⟩ := mem_gather.mp hx
    obtain ⟨j, hj, hxj⟩ := mem_gather.mp hx'
    obtain rfl := eq_of_getElem? hnodup hxi hxj
    simp [hj] at hi
  refine (perm_ext_iff_of_nodup
    (List.Nodup.append (nodup_gather hnodup) (nodup_gather hnodup) hdisjoint) (nodup_gather hnodup)).mpr
    fun x => ?_
  rw [mem_append, mem_gather, mem_gather, mem_gather]
  constructor
  · rintro (⟨i, hi, hx⟩ | ⟨i, hi, hx⟩)
    · rw [test_and, Bool.and_eq_true] at hi
      exact ⟨i, hi.1, hx⟩
    · exact ⟨i, hsub i hi, hx⟩
  · rintro ⟨i, hi, hx⟩
    by_cases hc : c.test i = true
    · exact .inr ⟨i, hc, hx⟩
    · refine .inl ⟨i, ?_, hx⟩
      have hlt : i < c.size := hsize ▸ lt_of_test hi
      rw [test_and, hi, test_not, decide_eq_true hlt]
      simpa using hc

theorem size_foldl_set (is : List ℕ) (b : Bitmap) : (is.foldl set b).size = b.size := by
  induction is generalizing b with
  | nil => rfl
  | cons i is ih => rw [foldl_cons, ih, size_set]

theorem test_foldl_set (is : List ℕ) (b : Bitmap) (j : ℕ) :
    (is.foldl set b).test j = true ↔ b.test j = true ∨ j ∈ is ∧ j < b.size := by
  induction is generalizing b with
  | nil => simp
  | cons i is ih =>
    rw [foldl_cons, ih, test_set, size_set, mem_cons, Bool.or_eq_true, decide_eq_true_eq]
    constructor
    · rintro ((h | ⟨rfl, h⟩) | ⟨h, hlt⟩)
      · exact .inl h
      · exact .inr ⟨.inl rfl, h⟩
      · exact .inr ⟨.inr h, hlt⟩
    · rintro (h | ⟨rfl | h, hlt⟩)
      · exact .inl (.inl h)
      · exact .inl (.inr ⟨rfl, hlt⟩)
      · exact .inr ⟨h, hlt⟩

end Bitmap

end LMCache
