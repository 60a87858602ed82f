import Mathlib.Data.Finset.Basic
import LMCache.StorageOps.Bitmap

namespace LMCache

open List Bitmap

namespace Bitmap

def getIndicesSet (b : Bitmap) : Finset ℕ := b.getIndices.toFinset

def writeByte (size : ℕ) (result : List Char) (p : BitVec 8 × ℕ) : List Char :=
  ((range 8).takeWhile fun j => decide (p.2 * 8 + j < size)).foldl
    (fun result j => if p.1.getLsbD j then result.set (p.2 * 8 + j) '1' else result) result

def toString (b : Bitmap) : String :=
  if b.size = 0 then ""
  else String.ofList (b.data.zipIdx.foldl (writeByte b.size) (replicate b.size '0'))

end Bitmap

inductive BitmapTerm where
  | ofSize (size : ℕ)
  | ofPrefix (size prefixBits : ℕ)
  | set (b : BitmapTerm) (index : ℕ)
  | clear (b : BitmapTerm) (index : ℕ)
  | and (a b : BitmapTerm)
  | or (a b : BitmapTerm)
  | not (b : BitmapTerm)

namespace BitmapTerm

def bitmap : BitmapTerm → Bitmap
  | ofSize size => .ofSize size
  | ofPrefix size prefixBits => .ofPrefix size prefixBits
  | set b index => b.bitmap.set index
  | clear b index => b.bitmap.clear index
  | and a b => a.bitmap.and b.bitmap
  | or a b => a.bitmap.or b.bitmap
  | not b => b.bitmap.not

def vector : BitmapTerm → List Bool
  | ofSize size => replicate size false
  | ofPrefix size prefixBits => (range size).map fun i => decide (i < prefixBits)
  | set b index => b.vector.set index true
  | clear b index => b.vector.set index false
  | and a b => zipWith (· && ·) a.vector b.vector
  | or a b => zipWith (· || ·) a.vector b.vector
  | not b => b.vector.map (!·)

end BitmapTerm

namespace Bitmap

structure Refines (b : Bitmap) (v : List Bool) : Prop where
  size : b.size = v.length
  test : ∀ i, b.test i = v.getD i false
  popcount : b.popcount = v.count true
  clz : b.clz = (v.takeWhile (!·)).length
  clo : b.clo = (v.takeWhile id).length
  getIndices : b.getIndices = (range v.length).filter fun i => v.getD i false
  getIndicesSet : ∀ i : ℕ, i ∈ b.getIndicesSet ↔ v[i]? = some true
  toString : b.toString = String.ofList (v.map fun x => if x then '1' else '0')
  gather : ∀ {A : Type} (items : List A),
    b.gather items = (v.zip items).filterMap fun p => if p.1 then some p.2 else none

variable (b : Bitmap)

def vector : List Bool := (range b.size).map b.test

@[simp] theorem length_vector : b.vector.length = b.size := by simp [vector]

variable (i : ℕ)

theorem getElem?_vector : b.vector[i]? = if i < b.size then some (b.test i) else none := by
  rw [vector, getElem?_map]
  split_ifs with h
  · rw [getElem?_range h, Option.map_some]
  · rw [getElem?_eq_none (by simpa using h), Option.map_none]

theorem lt_of_getElem? {b : Bitmap} {i : ℕ} {x : Bool} (h : b.vector[i]? = some x) :
    i < b.size := by
  rw [getElem?_vector] at h
  split_ifs at h with hlt
  exact hlt

theorem test_of_getElem? {b : Bitmap} {i : ℕ} {x : Bool} (h : b.vector[i]? = some x) :
    x = b.test i := by
  have hlt := lt_of_getElem? h
  rw [getElem?_vector, if_pos hlt] at h
  exact (Option.some.inj h).symm

theorem vector_eq_iff {b : Bitmap} {v : List Bool} (hsize : b.size = v.length) :
    b.vector = v ↔ ∀ i, b.test i = v.getD i false := by
  constructor
  · rintro rfl i
    rw [getD_eq_getElem?_getD, getElem?_vector]
    split_ifs with h
    · rfl
    · exact test_of_le (Nat.not_lt.mp h)
  · intro htest
    refine ext_getElem? fun i => ?_
    rw [getElem?_vector, htest i, getD_eq_getElem?_getD, hsize]
    split_ifs with h
    · rw [getElem?_eq_getElem h, Option.getD_some]
    · rw [getElem?_eq_none (Nat.not_lt.mp h)]

@[simp] theorem size_clear : (b.clear i).size = b.size := by
  simp only [clear]
  split_ifs <;> rfl

theorem getLsbD_clearMask :
    ∀ r < 8, ∀ j < 8, (~~~((1#8 : BitVec 8) <<< r)).getLsbD j = decide (j ≠ r) := by
  decide

theorem test_clear (i j : ℕ) : (b.clear i).test j = (b.test j && decide (i ≠ j)) := by
  rcases Nat.lt_or_ge j b.size with hj | hj
  · rcases Nat.lt_or_ge i b.size with hi | hi
    · rw [test_of_lt (by simpa using hj), test_of_lt hj]
      simp only [clear, if_neg (Nat.not_le.mpr hi), bit, getD_eq_getElem?_getD,
        getElem?_modify, getElem?_eq_getElem (byte_lt hj), byteIndex, bitOffset]
      split_ifs with hbyte
      · have hmask := getLsbD_clearMask (i % 8) (Nat.mod_lt _ (by omega)) (j % 8)
          (Nat.mod_lt _ (by omega))
        simp only [Option.map_eq_map, Option.map_some, Option.getD_some, BitVec.getLsbD_and, hmask]
        congr 2
        apply propext
        omega
      · have hne : i ≠ j := fun h => hbyte (h ▸ rfl)
        simp [hne]
    · have hne : i ≠ j := by omega
      simp [clear, hi, hne]
  · rw [test_of_le (by simpa using hj), test_of_le hj, Bool.false_and]

theorem test_or_min (a b : Bitmap) (i : ℕ) :
    (a.or b).test i = (decide (i < min a.size b.size) && (a.test i || b.test i)) := by
  rcases Nat.lt_or_ge i (min a.size b.size) with hi | hi
  · have ha : i < a.size := by omega
    have hb : i < b.size := by omega
    rw [test_of_lt (by rwa [size_or]), test_of_lt ha, test_of_lt hb, decide_eq_true hi,
      Bool.true_and]
    exact bit_zipWith (fun x y j _ => BitVec.getLsbD_or) (byte_lt ha) (byte_lt hb)
  · rw [test_of_le (by rwa [size_or]), decide_eq_false (Nat.not_lt.mpr hi), Bool.false_and]

theorem vector_set : (b.set i).vector = b.vector.set i true := by
  refine ext_getElem? fun j => ?_
  rw [getElem?_vector, getElem?_set, getElem?_vector, size_set, test_set, length_vector]
  split_ifs with hj hij hi hij hi
  · simp [hij, hj]
  · omega
  · simp [hij]
  · omega
  · rfl
  · rfl

theorem vector_clear : (b.clear i).vector = b.vector.set i false := by
  refine ext_getElem? fun j => ?_
  rw [getElem?_vector, getElem?_set, getElem?_vector, size_clear, test_clear, length_vector]
  split_ifs with hj hij hi hij hi
  · simp [hij]
  · omega
  · simp [hij]
  · omega
  · rfl
  · rfl

theorem vector_not : b.not.vector = b.vector.map (!·) := by
  refine ext_getElem? fun j => ?_
  rw [getElem?_vector, getElem?_map, getElem?_vector, size_not, test_not]
  split_ifs with hj
  · simp [hj]
  · rfl

theorem vector_ofSize (n : ℕ) : (ofSize n).vector = replicate n false := by
  refine ext_getElem? fun j => ?_
  rw [getElem?_vector, getElem?_replicate, size_ofSize, test_ofSize]

theorem vector_ofPrefix (n k : ℕ) :
    (ofPrefix n k).vector = (range n).map fun i => decide (i < k) := by
  rw [vector, size_ofPrefix]
  refine map_congr_left fun i hi => ?_
  rw [test_ofPrefix]
  simp [mem_range.mp hi]

theorem vector_zipWith {a b c : Bitmap} {f : Bool → Bool → Bool}
    (hsize : c.size = min a.size b.size)
    (htest : ∀ i < min a.size b.size, c.test i = f (a.test i) (b.test i)) :
    c.vector = zipWith f a.vector b.vector := by
  refine ext_getElem? fun j => ?_
  rw [getElem?_vector, getElem?_zipWith, getElem?_vector, getElem?_vector, hsize]
  rcases Nat.lt_or_ge j (min a.size b.size) with hj | hj
  · have ha : j < a.size := by omega
    have hb : j < b.size := by omega
    rw [if_pos hj, if_pos ha, if_pos hb, htest j hj]
  · rw [if_neg (Nat.not_lt.mpr hj)]
    split_ifs <;> first | rfl | omega

theorem vector_and (a b : Bitmap) : (a.and b).vector = zipWith (· && ·) a.vector b.vector :=
  vector_zipWith (size_and a b) fun i _ => test_and a b i

theorem vector_or (a b : Bitmap) : (a.or b).vector = zipWith (· || ·) a.vector b.vector :=
  vector_zipWith (size_or a b) fun i hi => by
    rw [test_or_min, decide_eq_true hi, Bool.true_and]

end Bitmap

theorem BitmapTerm.vector_bitmap (t : BitmapTerm) : t.bitmap.vector = t.vector := by
  induction t with
  | ofSize size => exact vector_ofSize size
  | ofPrefix size prefixBits => exact vector_ofPrefix size prefixBits
  | set b index ih => rw [bitmap, vector_set, ih, vector]
  | clear b index ih => rw [bitmap, vector_clear, ih, vector]
  | and a b iha ihb => rw [bitmap, vector_and, iha, ihb, vector]
  | or a b iha ihb => rw [bitmap, vector_or, iha, ihb, vector]
  | not b ih => rw [bitmap, vector_not, ih, vector]

namespace Bitmap

theorem length_takeWhile {A : Type} {p : A → Bool} {xs : List A} {n : ℕ} (hle : n ≤ xs.length)
    (hbefore : ∀ i < n, ∀ x, xs[i]? = some x → p x = true)
    (hat : ∀ x, xs[n]? = some x → p x = false) : (xs.takeWhile p).length = n := by
  induction xs generalizing n with
  | nil => exact (Nat.le_zero.mp hle).symm
  | cons x xs ih =>
    cases n with
    | zero =>
      rw [takeWhile_cons_of_neg (by simp [hat x rfl]), length_nil]
    | succ n =>
      rw [takeWhile_cons_of_pos (hbefore 0 (Nat.succ_pos n) x rfl), length_cons,
        ih (Nat.le_of_succ_le_succ hle) (fun i hi => hbefore (i + 1) (Nat.succ_lt_succ hi)) hat]

theorem gather_range {A : Type} (test : ℕ → Bool) (n : ℕ) (items : List A) :
    ((range n).filter test).filterMap (fun i => items[i]?) =
      (((range n).map test).zip items).filterMap fun p => if p.1 then some p.2 else none := by
  induction n generalizing test items with
  | zero => rfl
  | succ n ih =>
    cases items with
    | nil => simp
    | cons item items =>
      have hrest := ih (fun i => test (i + 1)) items
      rw [range_succ_eq_map, map_cons, zip_cons_cons, map_map, filter_cons, filter_map]
      split_ifs with htest
      · rw [filterMap_cons_some (by simp; rfl), filterMap_cons_some (by simp [htest]; rfl),
          filterMap_map]
        exact congrArg _ hrest
      · rw [filterMap_cons_none (by simp [htest]), filterMap_map]
        exact hrest

theorem takeWhile_range (size start n : ℕ) :
    ((range n).takeWhile fun j => decide (start + j < size)) =
      (range n).filter fun j => decide (start + j < size) := by
  induction n with
  | zero => rfl
  | succ n ih =>
    rw [range_succ, takeWhile_append, filter_append, ih]
    split_ifs with hall
    · rw [length_filter_eq_length_iff] at hall
      rw [filter_eq_self.mpr hall]
      cases hn : decide (start + n < size) <;> simp [hn]
    · have hlast : ¬ start + n < size := by
        intro hlt
        refine hall (congrArg length (filter_eq_self.mpr fun j hj => ?_))
        have := mem_range.mp hj
        exact decide_eq_true (by omega)
      rw [filter_singleton, decide_eq_false hlast]
      exact (append_nil _).symm

theorem getElem?_foldl_set (is : List ℕ) (result : List Char) (k : ℕ) :
    (is.foldl (fun result i => result.set i '1') result)[k]? =
      if k ∈ is then result[k]?.map fun _ => '1' else result[k]? := by
  induction is generalizing result with
  | nil => simp
  | cons i is ih =>
    rw [foldl_cons, ih, getElem?_set]
    simp only [mem_cons]
    split_ifs <;> simp_all

variable (b : Bitmap)

def ones : List ℕ :=
  b.data.zipIdx.flatMap fun p =>
    (((range 8).takeWhile fun j => decide (p.2 * 8 + j < b.size)).filter
      fun j => p.1.getLsbD j).map fun j => p.2 * 8 + j

theorem mem_ones (i : ℕ) : i ∈ b.ones ↔ b.test i = true := by
  rw [test_eq, Bool.and_eq_true, decide_eq_true_eq, ones]
  simp only [takeWhile_range, mem_flatMap, mem_map, mem_filter, mem_range,
    decide_eq_true_eq, Prod.exists, mem_zipIdx_iff_getElem?]
  constructor
  · rintro ⟨byte, n, hbyte, j, ⟨⟨hj, hlt⟩, hset⟩, rfl⟩
    have hdiv : (n * 8 + j) / 8 = n := by omega
    have hmod : (n * 8 + j) % 8 = j := by omega
    refine ⟨hlt, ?_⟩
    rw [bit, hdiv, hmod, getD_eq_getElem?_getD, hbyte, Option.getD_some, hset]
  · rintro ⟨hlt, hset⟩
    have hbyte : b.data[i / 8]? = some (b.data.getD (i / 8) 0#8) := by
      rw [getD_eq_getElem?_getD, getElem?_eq_getElem (byte_lt hlt), Option.getD_some]
    have hi : i / 8 * 8 + i % 8 = i := by omega
    exact ⟨_, i / 8, hbyte, i % 8, ⟨⟨Nat.mod_lt _ (by omega), by omega⟩, hset⟩, hi⟩

theorem foldl_writeByte (size : ℕ) (bytes : List (BitVec 8 × ℕ)) (result : List Char) :
    bytes.foldl (writeByte size) result =
      (bytes.flatMap fun p => (((range 8).takeWhile fun j => decide (p.2 * 8 + j < size)).filter
        fun j => p.1.getLsbD j).map fun j => p.2 * 8 + j).foldl
        (fun result i => result.set i '1') result := by
  induction bytes generalizing result with
  | nil => rfl
  | cons p bytes ih =>
    rw [foldl_cons, ih, flatMap_cons, foldl_append, foldl_map, foldl_filter, writeByte]

theorem toString_eq :
    b.toString = String.ofList (b.vector.map fun x => if x then '1' else '0') := by
  have hchars : b.data.zipIdx.foldl (writeByte b.size) (replicate b.size '0') =
      b.vector.map fun x => if x then '1' else '0' := by
    refine ext_getElem? fun i => ?_
    rw [foldl_writeByte, ← ones, getElem?_foldl_set, getElem?_map, getElem?_vector,
      getElem?_replicate]
    simp only [mem_ones]
    split_ifs with htest hlt hlt
    · simp [htest]
    · exact absurd (lt_of_test htest) hlt
    · simp [htest]
    · rfl
  rw [toString, hchars]
  split_ifs with hempty
  · rw [vector, hempty]
    rfl
  · rfl

theorem refines_vector : b.Refines b.vector where
  size := b.length_vector.symm
  test := (vector_eq_iff b.length_vector.symm).mp rfl
  popcount := by
    rw [popcount_eq, vector, List.count, countP_map]
    refine countP_congr fun i _ => ?_
    simp
  clz := by
    obtain ⟨hle, hbefore, hat⟩ := b.clz_spec
    refine (length_takeWhile (by rwa [length_vector]) (fun i hi x hx => ?_) fun x hx => ?_).symm
    · rw [test_of_getElem? hx, hbefore i hi]
      rfl
    · rw [test_of_getElem? hx, hat (lt_of_getElem? hx)]
      rfl
  clo := by
    obtain ⟨hle, hbefore, hat⟩ := b.clo_spec
    refine (length_takeWhile (by rwa [length_vector]) (fun i hi x hx => ?_) fun x hx => ?_).symm
    · rw [test_of_getElem? hx, hbefore i hi]
      rfl
    · rw [test_of_getElem? hx, hat (lt_of_getElem? hx)]
      rfl
  getIndices := by
    rw [getIndices_eq, length_vector]
    refine filter_congr fun i _ => ?_
    exact (vector_eq_iff b.length_vector.symm).mp rfl i
  getIndicesSet := fun i => by
    rw [getIndicesSet, mem_toFinset, mem_getIndices, getElem?_vector]
    constructor
    · intro htest
      rw [if_pos (lt_of_test htest), htest]
    · intro hsome
      split_ifs at hsome
      exact Option.some.inj hsome
  toString := b.toString_eq
  gather := fun items => by
    rw [gather, getIndices_eq, vector]
    exact gather_range b.test b.size items

end Bitmap

theorem BitmapTerm.bitmap_refines (t : BitmapTerm) : t.bitmap.Refines t.vector := by
  rw [← t.vector_bitmap]
  exact t.bitmap.refines_vector

end LMCache
