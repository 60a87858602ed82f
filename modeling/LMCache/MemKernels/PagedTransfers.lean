import LMCache.Foundations.Tensors

namespace LMCache.MemKernels

open Int32 List Nat Copies

inductive GPUKVFormat where
  | nbNlTwoBsNhHs
  | nlXTwoNbBsNhHs
  | nlXNbTwoBsNhHs
  | nlXNbBsHs
  | nlXNbbsOneHs
deriving DecidableEq

def isMla : GPUKVFormat → Bool
  | .nlXNbBsHs | .nlXNbbsOneHs => true
  | _ => false

def pageBufferOffset (format : GPUKVFormat)
    (kOrV tokenIdx scalarOffset scalarsPerToken pageBufferSize blockSize : Int32) : Int32 :=
  match format with
  | .nbNlTwoBsNhHs | .nlXTwoNbBsNhHs =>
      kOrV * pageBufferSize * scalarsPerToken + tokenIdx * scalarsPerToken + scalarOffset
  | .nlXNbTwoBsNhHs =>
      let blockIdx := tokenIdx / blockSize
      let blockOffset := tokenIdx % blockSize
      blockIdx * 2 * blockSize * scalarsPerToken + kOrV * blockSize * scalarsPerToken +
        blockOffset * scalarsPerToken + scalarOffset
  | .nlXNbBsHs | .nlXNbbsOneHs => tokenIdx * scalarsPerToken + scalarOffset

def keyValueOffset (kOrV layerIdx tokenIdx scalarOffset scalarsPerToken numTokens numLayers : Int32) :
    Int32 :=
  kOrV * numLayers * numTokens * scalarsPerToken + layerIdx * numTokens * scalarsPerToken +
    tokenIdx * scalarsPerToken + scalarOffset

-- the sizes of the tensors are 64-bit, page_buffer_size is numBlocks * blockSize, an int parameter
structure PagedKV where
  format : GPUKVFormat
  numLayers : ℕ
  numBlocks : ℕ
  blockSize : ℕ
  numHeads : ℕ
  headSize : ℕ
  elementSize : ℕ
  numTokens : ℕ
  sizes : 0 < numLayers ∧ 0 < numBlocks ∧ 0 < blockSize ∧ 0 < numHeads ∧ 0 < headSize ∧ 0 < numTokens
  element : elementSize = 1 ∨ elementSize = 2 ∨ elementSize = 4 ∨ elementSize = 8
  oneHead : isMla format → numHeads = 1
  pageBufferSize : numBlocks * blockSize < 2 ^ 31

namespace PagedKV

open RowMajor

variable (c : PagedKV)

def numOriginElements : ℕ := c.numHeads * c.headSize

def copySize : Int32 := .ofNat c.numOriginElements * .ofNat c.elementSize

def wordSize : ℕ :=
  if c.copySize % 8 = 0 then 8 else if c.copySize % 4 = 0 then 4 else if c.copySize % 2 = 0 then 2
  else 1

-- int num_origin_elements = key_value.size(3) is narrowed before the division
def numXwords : Int32 := .ofNat c.numOriginElements / .ofNat (c.wordSize / c.elementSize)

def wordsPerToken : ℕ := c.numOriginElements / (c.wordSize / c.elementSize)

def kOrVSize : ℕ := if isMla c.format then 1 else 2

def vllmOffset (kOrV slot word : ℕ) : ℤ :=
  (pageBufferOffset c.format (.ofNat kOrV) (.ofNat slot) (.ofNat word) c.numXwords
    (.ofNat (c.numBlocks * c.blockSize)) (.ofNat c.blockSize)).toInt

def lmcacheOffset (kOrV layer token word : ℕ) : ℤ :=
  (keyValueOffset (.ofNat kOrV) (.ofNat layer) (.ofNat token) (.ofNat word) c.numXwords
    (.ofNat c.numTokens) (.ofNat c.numLayers)).toInt

def dims (kOrV slot word : ℕ) : List (ℕ × ℕ) :=
  let block := (c.numBlocks, slot / c.blockSize)
  let offset := (c.blockSize, slot % c.blockSize)
  match c.format with
  | .nbNlTwoBsNhHs => [block, (c.numLayers, 0), (2, kOrV), offset, (c.wordsPerToken, word)]
  | .nlXTwoNbBsNhHs => [(2, kOrV), block, offset, (c.wordsPerToken, word)]
  | .nlXNbTwoBsNhHs => [block, (2, kOrV), offset, (c.wordsPerToken, word)]
  | .nlXNbBsHs => [block, offset, (c.wordsPerToken, word)]
  | .nlXNbbsOneHs => [(c.numBlocks * c.blockSize, slot), (1, 0), (c.wordsPerToken, word)]

def pagedBufferPtr (layer : ℕ) : ℕ × ℤ :=
  if c.format = .nbNlTwoBsNhHs then (0, layer * (2 * c.blockSize * c.wordsPerToken : ℕ)) else (layer, 0)

def cellAt (layer : ℕ) (offset : ℤ) : ℕ × ℤ :=
  ((c.pagedBufferPtr layer).1, (c.pagedBufferPtr layer).2 + offset)

def threads (slotMapping : List ℤ) (skipPrefixNTokens : ℕ) : List ((ℕ × ℤ) × ℤ) :=
  (range (ofNat c.numTokens - ofNat skipPrefixNTokens).toInt.toNat).flatMap fun tokenId =>
    (range (ofNat c.numLayers).toInt.toNat).flatMap fun layerId =>
      (range c.kOrVSize).flatMap fun kOrV =>
        let kvTokenId := tokenId + skipPrefixNTokens
        let slotIdx := slotMapping.getD kvTokenId (-1)
        if slotIdx < 0 then []
        else (range c.numXwords.toInt.toNat).map fun i =>
          (c.cellAt layerId (c.vllmOffset kOrV slotIdx.toNat i),
            c.lmcacheOffset kOrV layerId kvTokenId i)

def transferD2H {V : Type} (order : List ((ℕ × ℤ) × ℤ)) (paged : ℕ × ℤ → V) (keyValue : ℤ → V) :
    ℤ → V := copyAll (order.map Prod.swap) paged keyValue

def transferH2D {V : Type} (order : List ((ℕ × ℤ) × ℤ)) (keyValue : ℤ → V) (paged : ℕ × ℤ → V) :
    ℕ × ℤ → V := copyAll order keyValue paged

section SingleLayer

def elementsPerEntry : ℕ := 8 / c.elementSize

def headSizeIn64bit : Int32 := .ofNat (c.headSize / c.elementsPerEntry)

def vllmBlockSize : ℕ := if c.format = .nlXNbbsOneHs then 1 else c.blockSize

def vllmBlockKeyStride : Int32 :=
  .ofNat ((match c.format with
    | .nlXNbTwoBsNhHs => 2 * (c.blockSize * c.numOriginElements)
    | _ => c.vllmBlockSize * c.numOriginElements) / c.elementsPerEntry)

def vllmValueOffset : Int32 :=
  if isMla c.format then 0
  else .ofNat ((match c.format with
    | .nlXTwoNbBsNhHs => c.numBlocks * (c.blockSize * c.numOriginElements)
    | _ => c.blockSize * c.numOriginElements) / c.elementsPerEntry)

variable (tokenMajor : Bool)

def lmcStrides : ℕ × ℕ :=
  if isMla c.format then (c.numOriginElements, 0)
  else if tokenMajor then (2 * c.numOriginElements, c.numOriginElements)
  else (c.numOriginElements, c.numTokens * c.numOriginElements)

def lmcStride : Int32 := .ofNat ((c.lmcStrides tokenMajor).1 / c.elementsPerEntry)

def lmcValueOffset : Int32 :=
  .ofNat ((c.lmcStrides tokenMajor).2 / c.elementsPerEntry)

def SingleMoves (slotMapping : List ℤ) (bytes : ℤ × ℤ) : Prop :=
  ∃ token slot : ℕ, slotMapping[token]? = some (slot : ℤ) ∧
    token < (ofNat slotMapping.length).toInt ∧ ∃ i : ℕ, (i : ℤ) < (ofNat c.numHeads * c.headSizeIn64bit).toInt ∧
    ∃ kOrV < c.kOrVSize, ∃ byte : ℕ, byte < 8 ∧
      let headSize := c.headSizeIn64bit.toInt.toNat
      let lmcKeyIdx := token * (c.lmcStride tokenMajor).toInt + i
      let vllmKeyIdx := (slot / c.vllmBlockSize : ℕ) * c.vllmBlockKeyStride.toInt +
        (slot % c.vllmBlockSize * c.numHeads * headSize + i / headSize * headSize + i % headSize : ℕ)
      bytes = (8 * (lmcKeyIdx + kOrV * (c.lmcValueOffset tokenMajor).toInt) + byte,
        8 * (vllmKeyIdx + kOrV * c.vllmValueOffset.toInt) + byte)

def MultiMoves (slotMapping : List ℤ) (bytes : ℤ × ℤ) : Prop :=
  ∃ token slot : ℕ, slotMapping[token]? = some (slot : ℤ) ∧
    token < (ofNat c.numTokens).toInt ∧ ∃ word : ℕ, (word : ℤ) < c.numXwords.toInt ∧
    ∃ kOrV < c.kOrVSize, ∃ byte < c.wordSize,
      let object : ℕ := (token * (c.lmcStrides tokenMajor).1 + kOrV * (c.lmcStrides tokenMajor).2) *
        c.elementSize + word * c.wordSize
      bytes = ((object : ℤ) + byte, c.wordSize * c.vllmOffset kOrV slot word + byte)

end SingleLayer

structure SlotMapping (slotMapping : List ℤ) : Prop where
  length : slotMapping.length = c.numTokens
  below : ∀ slot ∈ slotMapping, slot < (c.numBlocks * c.blockSize : ℕ)
  distinct : slotMapping.Pairwise fun a b => 0 ≤ a → a ≠ b

def Transferred (slotMapping : List ℤ) (skipPrefixNTokens : ℕ) (cell : ℕ × ℤ) : Prop :=
  ∃ token slot : ℕ, skipPrefixNTokens ≤ token ∧ slotMapping[token]? = some (slot : ℤ) ∧
    ∃ layer < c.numLayers, ∃ kOrV < c.kOrVSize, ∃ word < c.wordsPerToken,
      cell = c.cellAt layer (index (c.dims kOrV slot word))

def objectVolume : ℕ := c.kOrVSize * c.numLayers * c.numTokens * c.wordsPerToken

def RoundTrips (V : Type) (slotMapping : List ℤ) (skipPrefixNTokens : ℕ) : Prop :=
  ∀ order order', order.Perm (c.threads slotMapping skipPrefixNTokens) →
    order'.Perm (c.threads slotMapping skipPrefixNTokens) →
    ∀ (paged paged' : ℕ × ℤ → V) (keyValue : ℤ → V),
      let stored := transferD2H order paged keyValue
      let restored := transferH2D order' stored paged'
      (∀ address : ℤ, (address < 0 ∨ c.objectVolume ≤ address) → stored address = keyValue address) ∧
      ∀ cell, (c.Transferred slotMapping skipPrefixNTokens cell → restored cell = paged cell) ∧
        (¬ c.Transferred slotMapping skipPrefixNTokens cell → restored cell = paged' cell)

structure Right (V : Type) : Prop where
  address : ∀ kOrV < c.kOrVSize, ∀ slot < c.numBlocks * c.blockSize, ∀ word < c.wordsPerToken,
    c.vllmOffset kOrV slot word = index (c.dims kOrV slot word)
  roundTrip : ∀ slotMapping skipPrefixNTokens, c.SlotMapping slotMapping →
    skipPrefixNTokens ≤ c.numTokens → c.RoundTrips V slotMapping skipPrefixNTokens
  singleLayer : c.format ≠ .nbNlTwoBsNhHs → ∀ tokenMajor slotMapping, c.SlotMapping slotMapping →
    ∀ bytes, c.SingleMoves tokenMajor slotMapping bytes ↔ c.MultiMoves tokenMajor slotMapping bytes

structure Fits : Prop where
  layout : c.format = .nbNlTwoBsNhHs → c.numBlocks ≤ 1
  origin : c.numOriginElements < 2 ^ 31
  tokens : c.numTokens < 2 ^ 31
  layers : c.numLayers < 2 ^ 31
  paged : c.kOrVSize * (c.numBlocks * c.blockSize) * c.wordsPerToken ≤ 2 ^ 31
  object : c.objectVolume ≤ 2 ^ 31
  entries : c.format ≠ .nbNlTwoBsNhHs → 8 ∣ c.headSize * c.elementSize

variable {c}

section Sizes

theorem toInt_ofNat_le (n : ℕ) : (ofNat n).toInt ≤ n := by
  rw [toInt_ofNat', Int.bmod_def, show Int32.size = 2 ^ 32 from rfl]
  split <;> omega

theorem mod_ofNat_eq_zero_iff (n : ℕ) {k : ℕ} (hk : k < 2 ^ 31) (hdvd : k ∣ 2 ^ 32) :
    ofNat n % ofNat k = 0 ↔ n % k = 0 := by
  have hwrap : (ofNat n).toInt % k = (n : ℤ) % k := by
    rw [toInt_ofNat', ← Int.emod_emod_of_dvd _ (Int.natCast_dvd_natCast.mpr hdvd),
      ← Int.emod_emod_of_dvd (n : ℤ) (Int.natCast_dvd_natCast.mpr hdvd)]
    exact congrArg (· % (k : ℤ)) Int.bmod_emod
  rw [← toInt_inj, toInt_mod, toInt_ofNat_of_lt hk, show (0 : Int32).toInt = 0 from rfl,
    ← Int.dvd_iff_tmod_eq_zero, Int.dvd_iff_emod_eq_zero, hwrap]
  omega

theorem wordSize_eq (c : PagedKV) : c.wordSize =
    if c.numOriginElements * c.elementSize % 8 = 0 then 8
    else if c.numOriginElements * c.elementSize % 4 = 0 then 4
    else if c.numOriginElements * c.elementSize % 2 = 0 then 2 else 1 := by
  rw [wordSize, copySize, ← ofNat_mul]
  exact if_congr (mod_ofNat_eq_zero_iff _ (by decide) (by decide)) rfl
    (if_congr (mod_ofNat_eq_zero_iff _ (by decide) (by decide)) rfl
      (if_congr (mod_ofNat_eq_zero_iff _ (by decide) (by decide)) rfl rfl))

theorem wordsPerToken_mul (c : PagedKV) :
    c.wordsPerToken * c.wordSize = c.numOriginElements * c.elementSize := by
  rw [wordsPerToken, wordSize_eq]
  rcases c.element with he | he | he | he <;> rw [he] <;> split_ifs <;> omega

theorem wordsPerToken_pos (c : PagedKV) : 0 < c.wordsPerToken := by
  obtain ⟨-, -, -, hheads, hsize, -⟩ := c.sizes
  have helement : 0 < c.elementSize := by have := c.element; omega
  refine pos_of_ne_zero fun hzero => ?_
  have hmul := c.wordsPerToken_mul
  rw [hzero, Nat.zero_mul] at hmul
  exact (mul_pos (mul_pos hheads hsize) helement).ne hmul

theorem kOrVSize_pos (c : PagedKV) : 0 < c.kOrVSize := by
  rw [kOrVSize]
  split <;> decide

theorem elementsPerXword (c : PagedKV) :
    0 < c.wordSize / c.elementSize ∧ c.wordSize / c.elementSize < 2 ^ 31 ∧
      c.wordsPerToken * (c.wordSize / c.elementSize) = c.numOriginElements := by
  rw [wordsPerToken, wordSize_eq]
  rcases c.element with he | he | he | he <;> rw [he] <;> split_ifs <;> omega

theorem wordsPerToken_le (c : PagedKV) : c.wordsPerToken ≤ c.numOriginElements :=
  Nat.div_le_self _ _

theorem numXwords_eq (horigin : c.numOriginElements < 2 ^ 31) :
    c.numXwords = ofNat c.wordsPerToken :=
  (ofNat_div horigin c.elementsPerXword.2.1).symm

theorem toInt_numXwords (c : PagedKV) : c.numXwords.toInt =
    (ofNat c.numOriginElements).toInt.tdiv (c.wordSize / c.elementSize : ℕ) := by
  have hentry := toInt_ofNat_of_lt c.elementsPerXword.2.1
  rw [numXwords, toInt_div_of_ne_right _ _ fun hneg => ?_, hentry]
  rw [hneg] at hentry
  exact absurd (Int.natCast_nonneg (c.wordSize / c.elementSize)) (by rw [← hentry]; decide)

theorem toInt_numXwords_le (c : PagedKV) : c.numXwords.toInt ≤ c.wordsPerToken := by
  obtain ⟨hpos, -, hmul⟩ := c.elementsPerXword
  rw [toInt_numXwords]
  refine (Int.tdiv_le_tdiv (Int.ofNat_lt.mpr hpos) (toInt_ofNat_le _)).trans_eq ?_
  rw [← hmul, cast_mul, Int.mul_tdiv_cancel _ (Int.ofNat_lt.mpr hpos).ne']

theorem origin_lt (h : c.wordsPerToken ≤ c.numXwords.toInt) : c.numOriginElements < 2 ^ 31 := by
  obtain ⟨hpos, -, hmul⟩ := c.elementsPerXword
  have hwords := c.wordsPerToken_pos
  have hnonneg : 0 ≤ (ofNat c.numOriginElements).toInt := by
    by_contra hneg
    have hle := Int.tdiv_le_tdiv (Int.ofNat_lt.mpr hpos) (not_le.mp hneg).le
    rw [Int.zero_tdiv, ← toInt_numXwords] at hle
    omega
  have hdiv := Int.mul_tdiv_self_le (k := (c.wordSize / c.elementSize : ℕ)) hnonneg
  rw [← toInt_numXwords] at hdiv
  have hle := (Int.mul_le_mul_of_nonneg_left h (Int.natCast_nonneg _)).trans hdiv
  rw [← cast_mul, Nat.mul_comm, hmul] at hle
  exact Int.ofNat_lt.mp (hle.trans_lt (toInt_lt _))

end Sizes

section Address

variable {kOrV slot word : ℕ}

theorem within_dims (hkOrV : kOrV < c.kOrVSize) (hslot : slot < c.numBlocks * c.blockSize)
    (hword : word < c.wordsPerToken) : Within (c.dims kOrV slot word) := by
  obtain ⟨hlayers, -, hsize, -⟩ := c.sizes
  have hblock : slot / c.blockSize < c.numBlocks := Nat.div_lt_of_lt_mul (by rwa [Nat.mul_comm])
  have hoffset := mod_lt slot hsize
  rw [kOrVSize] at hkOrV
  cases hformat : c.format <;>
    simp_all [Within, dims, isMla]

theorem volume_dims (hformat : c.format ≠ .nbNlTwoBsNhHs) :
    volume (c.dims kOrV slot word) =
      c.kOrVSize * (c.numBlocks * c.blockSize) * c.wordsPerToken := by
  cases h : c.format <;> first | exact absurd h hformat | skip
  all_goals
    simp only [dims, h, volume_cons, volume_nil, kOrVSize, isMla, if_true, if_false,
      Bool.false_eq_true]
    ring

theorem index_crossLayer (kOrV word : ℕ) (hformat : c.format = .nbNlTwoBsNhHs) (hblocks : c.numBlocks ≤ 1)
    (hslot : slot < c.numBlocks * c.blockSize) :
    index (c.dims kOrV slot word) =
        index [(2, kOrV), (c.blockSize, slot), (c.wordsPerToken, word)] ∧
      c.kOrVSize * (c.numBlocks * c.blockSize) * c.wordsPerToken =
        volume [(2, kOrV), (c.blockSize, slot), (c.wordsPerToken, word)] ∧
      slot < c.blockSize := by
  have hone : c.numBlocks = 1 := by have := c.sizes.2.1; omega
  rw [hone, Nat.one_mul] at hslot
  refine ⟨?_, ?_, hslot⟩
  · simp only [dims, hformat, hone, index, Nat.div_eq_of_lt hslot, Nat.mod_eq_of_lt hslot,
      Nat.zero_mul, Nat.zero_add]
  · simp only [kOrVSize, isMla, hformat, hone, volume_cons, volume_nil,
      Bool.false_eq_true, if_false, Nat.one_mul, Nat.mul_one, Nat.mul_assoc]

theorem index_lt (hlayout : c.format = .nbNlTwoBsNhHs → c.numBlocks ≤ 1) (hkOrV : kOrV < c.kOrVSize)
    (hslot : slot < c.numBlocks * c.blockSize) (hword : word < c.wordsPerToken) :
    index (c.dims kOrV slot word) < c.kOrVSize * (c.numBlocks * c.blockSize) * c.wordsPerToken := by
  by_cases hformat : c.format = .nbNlTwoBsNhHs
  · obtain ⟨hindex, hvolume, hlt⟩ := index_crossLayer kOrV word hformat
      (hlayout hformat) hslot
    rw [hindex, hvolume]
    refine RowMajor.index_lt ?_
    have htwo : c.kOrVSize = 2 := by rw [kOrVSize, hformat]; rfl
    simp only [Within, forall_mem_cons, not_mem_nil, false_imp_iff, implies_true, and_true]
    omega
  · rw [← volume_dims hformat]
    exact RowMajor.index_lt (within_dims hkOrV hslot hword)

theorem vllmOffset_eq (horigin : c.numOriginElements < 2 ^ 31)
    (hlayout : c.format = .nbNlTwoBsNhHs → c.numBlocks ≤ 1)
    (hslot : slot < c.numBlocks * c.blockSize) : c.vllmOffset kOrV slot word =
      (ofNat (index (c.dims kOrV slot word))).toInt := by
  rw [vllmOffset, numXwords_eq horigin]
  refine congrArg toInt ?_
  have hsize : c.blockSize < 2 ^ 31 :=
    (Nat.le_mul_of_pos_left _ c.sizes.2.1).trans_lt c.pageBufferSize
  have hlt := hslot.trans c.pageBufferSize
  have hsplit := div_add_mod' slot c.blockSize
  cases hformat : c.format with
  | nbNlTwoBsNhHs =>
    rw [(index_crossLayer kOrV word hformat (hlayout hformat) hslot).1]
    have hone : c.numBlocks = 1 := by have := hlayout hformat; have := c.sizes.2.1; omega
    simp only [pageBufferOffset, index, volume_cons, volume_nil, ← ofNat_mul, ← ofNat_add, hone]
    congr 1
    ring
  | nlXTwoNbBsNhHs | nlXNbBsHs =>
    simp only [pageBufferOffset, dims, hformat, index, volume_cons, volume_nil, ← ofNat_mul,
      ← ofNat_add]
    nth_rewrite 1 [← hsplit]
    congr 1
    ring
  | nlXNbTwoBsNhHs =>
    simp only [pageBufferOffset, dims, hformat, index, volume_cons, volume_nil,
      ← ofNat_div hlt hsize, ← ofNat_mod hlt hsize, ← ofNat_mul,
      ← ofNat_add, show (2 : Int32) = ofNat 2 from rfl]
    congr 1
    ring
  | nlXNbbsOneHs =>
    simp only [pageBufferOffset, dims, hformat, index, volume_cons, volume_nil, ← ofNat_mul,
      ← ofNat_add]
    congr 1
    ring

end Address

section Transfers

variable {slotMapping : List ℤ} {skipPrefixNTokens : ℕ}

def objectDims (c : PagedKV) (kOrV layer token word : ℕ) : List (ℕ × ℕ) :=
  [(c.kOrVSize, kOrV), (c.numLayers, layer), (c.numTokens, token), (c.wordsPerToken, word)]

theorem volume_objectDims (kOrV layer token word : ℕ) :
    volume (c.objectDims kOrV layer token word) = c.objectVolume := by
  simp only [objectDims, volume_cons, volume_nil, objectVolume]
  ring

theorem lmcacheOffset_eq (horigin : c.numOriginElements < 2 ^ 31) (kOrV layer token word : ℕ) :
    c.lmcacheOffset kOrV layer token word =
      (ofNat (index (c.objectDims kOrV layer token word))).toInt := by
  rw [lmcacheOffset, numXwords_eq horigin]
  refine congrArg toInt ?_
  simp only [keyValueOffset, objectDims, index, volume_cons, volume_nil, ← ofNat_mul, ← ofNat_add]
  congr 1
  ring

theorem within_objectDims {kOrV layer token word : ℕ} :
    Within (c.objectDims kOrV layer token word) ↔
      kOrV < c.kOrVSize ∧ layer < c.numLayers ∧ token < c.numTokens ∧ word < c.wordsPerToken := by
  simp only [Within, objectDims, forall_mem_cons, not_mem_nil, false_imp_iff,
    implies_true, and_true]

variable {p : (ℕ × ℤ) × ℤ}

theorem mem_threads (hlength : slotMapping.length = c.numTokens)
    (hskip : skipPrefixNTokens ≤ c.numTokens) :
    p ∈ c.threads slotMapping skipPrefixNTokens ↔
      ∃ token slot : ℕ, skipPrefixNTokens ≤ token ∧ slotMapping[token]? = some (slot : ℤ) ∧
        ((token - skipPrefixNTokens : ℕ) : ℤ) < (ofNat (c.numTokens - skipPrefixNTokens)).toInt ∧
        ∃ layer : ℕ, (layer : ℤ) < (ofNat c.numLayers).toInt ∧ ∃ kOrV < c.kOrVSize,
        ∃ word : ℕ, (word : ℤ) < c.numXwords.toInt ∧
          p = (c.cellAt layer (c.vllmOffset kOrV slot word), c.lmcacheOffset kOrV layer token word) := by
  rw [threads, ← ofNat_sub _ _ hskip]
  simp only [mem_flatMap, mem_range, Int.lt_toNat]
  constructor
  · rintro ⟨tokenId, htoken, layer, hlayer, kOrV, hkOrV, hp⟩
    have hlt : tokenId + skipPrefixNTokens < slotMapping.length := by
      have := htoken.trans_le (toInt_ofNat_le _)
      omega
    rw [getD_eq_getElem?_getD, getElem?_eq_getElem hlt, Option.getD_some] at hp
    split_ifs at hp with hneg
    · exact absurd hp not_mem_nil
    · obtain ⟨word, hword, rfl⟩ := mem_map.mp hp
      refine ⟨tokenId + skipPrefixNTokens, _, le_add_left _ _, ?_,
        by rwa [Nat.add_sub_cancel], layer, hlayer, kOrV, hkOrV,
        word, Int.lt_toNat.mp (mem_range.mp hword), rfl⟩
      rw [Int.toNat_of_nonneg (not_lt.mp hneg), getElem?_eq_getElem hlt]
  · rintro ⟨token, slot, hle, hslot, htoken, layer, hlayer, kOrV, hkOrV, word, hword, rfl⟩
    refine ⟨token - skipPrefixNTokens, htoken, layer, hlayer, kOrV, hkOrV, ?_⟩
    rw [Nat.sub_add_cancel hle, getD_eq_getElem?_getD, hslot, Option.getD_some,
      if_neg (Int.not_lt.mpr (Int.natCast_nonneg slot))]
    exact mem_map.mpr ⟨word, mem_range.mpr (Int.lt_toNat.mpr hword), rfl⟩

theorem SlotMapping.slot_lt (h : c.SlotMapping slotMapping) {token slot : ℕ}
    (hslot : slotMapping[token]? = some (slot : ℤ)) :
    slot < c.numBlocks * c.blockSize ∧ token < c.numTokens :=
  ⟨Int.ofNat_lt.mp (h.below _ (mem_of_getElem? hslot)),
    h.length ▸ (List.getElem?_eq_some_iff.mp hslot).1⟩

theorem Fits.words (hfits : c.Fits) : c.wordsPerToken < 2 ^ 31 :=
  c.wordsPerToken_le.trans_lt hfits.origin

theorem Fits.mem_threads (hfits : c.Fits) (h : c.SlotMapping slotMapping)
    (hskip : skipPrefixNTokens ≤ c.numTokens) :
    p ∈ c.threads slotMapping skipPrefixNTokens ↔
      ∃ token slot : ℕ, skipPrefixNTokens ≤ token ∧ slotMapping[token]? = some (slot : ℤ) ∧
        ∃ layer < c.numLayers, ∃ kOrV < c.kOrVSize, ∃ word < c.wordsPerToken,
          p = (c.cellAt layer (index (c.dims kOrV slot word)),
            (index (c.objectDims kOrV layer token word) : ℤ)) := by
  rw [PagedKV.mem_threads h.length hskip]
  simp only [toInt_ofNat_of_lt hfits.layers, toInt_ofNat_of_lt
    ((Nat.sub_le c.numTokens skipPrefixNTokens).trans_lt hfits.tokens), Int.ofNat_lt]
  refine exists₂_congr fun token slot => and_congr_right fun hle => and_congr_right fun hslot => ?_
  obtain ⟨hlt, htoken⟩ := h.slot_lt hslot
  rw [and_iff_right (by omega)]
  refine exists_congr fun layer => and_congr_right fun hlayer => exists_congr fun kOrV =>
    and_congr_right fun hkOrV => exists_congr fun word => ?_
  rw [numXwords_eq hfits.origin, toInt_ofNat_of_lt hfits.words, Int.ofNat_lt]
  refine and_congr_right fun hword => ?_
  have hindex := index_lt hfits.layout hkOrV hlt hword
  have hobject := RowMajor.index_lt (within_objectDims.mpr ⟨hkOrV, hlayer, htoken, hword⟩)
  rw [volume_objectDims] at hobject
  rw [vllmOffset_eq hfits.origin hfits.layout hlt, lmcacheOffset_eq hfits.origin,
    toInt_ofNat_of_lt (hindex.trans_le hfits.paged),
    toInt_ofNat_of_lt (hobject.trans_le hfits.object)]

end Transfers

section Necessary

variable {V : Type}

def probe (c : PagedKV) (token : ℕ) : List ℤ := (replicate c.numTokens (-1)).set token 0

theorem getElem?_probe {token : ℕ} (htoken : token < c.numTokens) (i : ℕ) (slot : ℕ) :
    (c.probe token)[i]? = some (slot : ℤ) ↔ i = token ∧ slot = 0 := by
  rw [probe, getElem?_set, length_replicate, getElem?_replicate]
  split_ifs <;> simp <;> omega

theorem slotMapping_probe (c : PagedKV) (token : ℕ) : c.SlotMapping (c.probe token) := by
  have hmem : ∀ slot ∈ c.probe token, slot ≤ 0 := by
    intro slot hslot
    rcases mem_or_eq_of_mem_set hslot with h | h
    · rw [eq_of_mem_replicate h]
      decide
    · exact h.le
  refine ⟨by rw [probe, length_set, length_replicate], fun slot hslot => ?_, ?_⟩
  · have hpos := mul_pos c.sizes.2.1 c.sizes.2.2.1
    have := hmem slot hslot
    omega
  · rw [pairwise_iff_getElem]
    intro i j hi hj hij hnonneg heq
    simp only [probe, getElem_set, getElem_replicate] at hnonneg heq
    split_ifs at hnonneg heq <;> omega

theorem transferred_probe {token kOrV layer word : ℕ} (htoken : token < c.numTokens)
    (hkOrV : kOrV < c.kOrVSize) (hlayer : layer < c.numLayers) (hword : word < c.wordsPerToken) :
    c.Transferred (c.probe token) 0 (c.cellAt layer (index (c.dims kOrV 0 word))) :=
  ⟨token, 0, Nat.zero_le _, (getElem?_probe htoken _ _).mpr ⟨rfl, rfl⟩, layer, hlayer, kOrV, hkOrV,
    word, hword, rfl⟩

theorem cellAt_inj {layer layer' kOrV kOrV' word word' : ℕ} (hlayer : layer < c.numLayers)
    (hlayer' : layer' < c.numLayers) (hkOrV : kOrV < c.kOrVSize) (hkOrV' : kOrV' < c.kOrVSize)
    (hword : word < c.wordsPerToken) (hword' : word' < c.wordsPerToken)
    (h : c.cellAt layer (index (c.dims kOrV 0 word)) = c.cellAt layer' (index (c.dims kOrV' 0 word'))) :
    layer = layer' ∧ word = word' := by
  obtain ⟨-, hblocks, hsize, -⟩ := c.sizes
  have hslot : 0 < c.numBlocks * c.blockSize := mul_pos hblocks hsize
  rw [cellAt, cellAt, pagedBufferPtr, pagedBufferPtr] at h
  by_cases hformat : c.format = .nbNlTwoBsNhHs
  · have hcell : ∀ layer kOrV word, layer * (2 * c.blockSize * c.wordsPerToken) +
        index (c.dims kOrV 0 word) = index [(c.numBlocks, 0), (c.numLayers, layer), (2, kOrV),
          (c.blockSize, 0), (c.wordsPerToken, word)] := by
      intro layer kOrV word
      simp only [dims, hformat, index, volume_cons, volume_nil, Nat.zero_div, Nat.zero_mod]
      ring
    have htwo : c.kOrVSize = 2 := by rw [kOrVSize, hformat]; rfl
    rw [if_pos hformat, if_pos hformat, Prod.mk.injEq, ← cast_mul, ← cast_mul, ← cast_add,
      ← cast_add, Nat.cast_inj, hcell, hcell] at h
    have hsame := index_inj (by rfl) (by simp [Within]; omega) (by simp [Within]; omega) h.2
    simp at hsame
    exact ⟨hsame.1, hsame.2.2⟩
  · rw [if_neg hformat, if_neg hformat, Prod.mk.injEq, Int.zero_add, Int.zero_add,
      Nat.cast_inj] at h
    have hshape : (c.dims kOrV 0 word).map Prod.fst = (c.dims kOrV' 0 word').map Prod.fst := by
      rw [dims, dims]
      cases c.format <;> rfl
    have hsame := index_inj hshape (within_dims hkOrV hslot hword) (within_dims hkOrV' hslot hword')
      h.2
    refine ⟨h.1, ?_⟩
    rw [dims, dims] at hsame
    cases hcase : c.format <;> rw [hcase] at hsame <;> simp at hsame <;> omega

theorem Right.launched (hright : c.Right V) [Nontrivial V] {token layer word : ℕ}
    (htoken : token < c.numTokens) (hlayer : layer < c.numLayers) (hword : word < c.wordsPerToken) :
    token < (ofNat c.numTokens).toInt ∧ layer < (ofNat c.numLayers).toInt ∧
      word < c.numXwords.toInt := by
  obtain ⟨v, w, hvw⟩ := exists_pair_ne V
  have hkOrV := c.kOrVSize_pos
  have hslot : 0 < c.numBlocks * c.blockSize := mul_pos c.sizes.2.1 c.sizes.2.2.1
  by_contra hout
  have hrestored := ((hright.roundTrip _ 0 (slotMapping_probe c token) (zero_le _) _ _
    (.refl _) (.refl _) (fun _ => v) (fun _ => w) fun _ => w).2 _).1
    (transferred_probe htoken hkOrV hlayer hword)
  -- no thread of the launch reaches the cell, so the copy back leaves it as it was
  rw [transferH2D, copyAll_of_notMem fun p hp heq => ?_] at hrestored
  · exact hvw hrestored.symm
  · obtain ⟨token', slot, -, hslotted, htoken', layer', hlayer', kOrV', hkOrV', word', hword', rfl⟩ :=
      (mem_threads (slotMapping_probe c token).length (zero_le _)).mp hp
    obtain ⟨rfl, rfl⟩ := (getElem?_probe htoken token' slot).mp hslotted
    have hlt : layer' < c.numLayers := Int.ofNat_lt.mp (hlayer'.trans_le (toInt_ofNat_le _))
    have hlt' : word' < c.wordsPerToken :=
      Int.ofNat_lt.mp (hword'.trans_le c.toInt_numXwords_le)
    rw [hright.address kOrV' hkOrV' 0 hslot word' hlt'] at heq
    obtain ⟨rfl, rfl⟩ := cellAt_inj hlt hlayer hkOrV' hkOrV hlt' hword heq
    exact hout ⟨htoken', hlayer', hword'⟩

theorem Right.origin (hright : c.Right V) [Nontrivial V] : c.numOriginElements < 2 ^ 31 := by
  have hwords := c.wordsPerToken_pos
  obtain ⟨hlayers, -, -, -, -, htokens⟩ := c.sizes
  have hlast := (hright.launched htokens hlayers (sub_one_lt hwords.ne')).2.2
  exact origin_lt (by omega)

theorem Right.layout (hright : c.Right V) [Nontrivial V] (hformat : c.format = .nbNlTwoBsNhHs) :
    c.numBlocks ≤ 1 := by
  by_contra hblocks
  obtain ⟨hlayers, -, hsize, -⟩ := c.sizes
  have hwords := c.wordsPerToken_pos
  have htwo := c.kOrVSize_pos
  have hslot : c.blockSize < c.numBlocks * c.blockSize := by
    calc c.blockSize < 2 * c.blockSize := by omega
      _ ≤ c.numBlocks * c.blockSize := Nat.mul_le_mul_right _ (by omega)
  have haddress := hright.address 0 htwo c.blockSize hslot 0 hwords
  have hoffset : c.vllmOffset 0 c.blockSize 0 ≤ (c.blockSize * c.wordsPerToken : ℕ) := by
    have hvalue : c.vllmOffset 0 c.blockSize 0 = (ofNat (c.blockSize * c.wordsPerToken)).toInt := by
      rw [vllmOffset, numXwords_eq hright.origin]
      refine congrArg toInt ?_
      simp only [pageBufferOffset, hformat, ← ofNat_mul, ← ofNat_add]
      congr 1
      ring
    rw [hvalue]
    exact toInt_ofNat_le _
  have hindex : index (c.dims 0 c.blockSize 0) =
      2 * (c.numLayers * (c.blockSize * c.wordsPerToken)) := by
    simp only [dims, hformat, index, volume_cons, volume_nil, Nat.div_self hsize, Nat.mod_self]
    ring
  have hpos := Nat.mul_pos hsize hwords
  have hmul := Nat.le_mul_of_pos_left (c.blockSize * c.wordsPerToken) hlayers
  rw [haddress, hindex] at hoffset
  omega

theorem Right.paged (hright : c.Right V) [Nontrivial V] :
    c.kOrVSize * (c.numBlocks * c.blockSize) * c.wordsPerToken ≤ 2 ^ 31 := by
  obtain ⟨hlayers, hblocks, hsize, -⟩ := c.sizes
  have hwords := c.wordsPerToken_pos
  have htwo := c.kOrVSize_pos
  have hslots := mul_pos hblocks hsize
  have haddress := hright.address (c.kOrVSize - 1) (by omega) (c.numBlocks * c.blockSize - 1)
    (by omega) (c.wordsPerToken - 1) (by omega)
  have hlast : index (c.dims (c.kOrVSize - 1) (c.numBlocks * c.blockSize - 1)
      (c.wordsPerToken - 1)) + 1 = c.kOrVSize * (c.numBlocks * c.blockSize) * c.wordsPerToken := by
    have hdiv := mul_sub_div 0 c.blockSize c.numBlocks (by rwa [mul_comm])
    have hmod := mul_sub_mod (x := 0) (n := c.blockSize) (p := c.numBlocks)
      (by rwa [mul_comm])
    rw [Nat.mul_comm c.blockSize, Nat.zero_div, Nat.zero_add] at hdiv
    rw [mul_comm c.blockSize, zero_mod, zero_add] at hmod
    by_cases hformat : c.format = .nbNlTwoBsNhHs
    · obtain ⟨hindex, hvolume, hlt⟩ := index_crossLayer (c.kOrVSize - 1) (c.wordsPerToken - 1) hformat
        (hright.layout hformat) (sub_one_lt hslots.ne')
      have hone : c.numBlocks = 1 := by have := hright.layout hformat; omega
      rw [hindex, hvolume]
      refine index_last ?_
      rw [kOrVSize, hformat, hone]
      simp only [isMla, Bool.false_eq_true, if_false, forall_mem_cons, not_mem_nil,
        false_imp_iff, implies_true, and_true, true_and]
      omega
    · rw [← volume_dims hformat]
      refine index_last ?_
      rw [kOrVSize]
      cases h : c.format <;> first | exact absurd h hformat | skip
      all_goals
        simp only [dims, h, hdiv, hmod, isMla, Bool.false_eq_true, if_false,
          forall_mem_cons, not_mem_nil, false_imp_iff, implies_true, and_true, true_and]
        omega
  have hlt := toInt_lt (pageBufferOffset c.format (.ofNat (c.kOrVSize - 1))
    (.ofNat (c.numBlocks * c.blockSize - 1)) (.ofNat (c.wordsPerToken - 1)) c.numXwords
    (.ofNat (c.numBlocks * c.blockSize)) (.ofNat c.blockSize))
  rw [vllmOffset] at haddress
  omega

theorem Right.object (hright : c.Right V) [Nontrivial V] : c.objectVolume ≤ 2 ^ 31 := by
  by_contra hlarge
  obtain ⟨v, w, hvw⟩ := exists_pair_ne V
  obtain ⟨is, hlen, hwithin, hindex⟩ := exists_index (n := 2 ^ 31)
    [c.kOrVSize, c.numLayers, c.numTokens, c.wordsPerToken] (by
      simp only [prod_cons, prod_nil]
      rw [objectVolume] at hlarge
      simpa only [Nat.mul_one, Nat.mul_assoc, not_le] using hlarge)
  obtain ⟨kOrV, layer, token, word, rfl⟩ : ∃ kOrV layer token word, is = [kOrV, layer, token, word] := by
    rcases is with _ | ⟨kOrV, _ | ⟨layer, _ | ⟨token, _ | ⟨word, _ | ⟨_, _⟩⟩⟩⟩⟩ <;> simp_all
  obtain ⟨hkOrV, hlayer, htoken, hword⟩ := within_objectDims.mp hwithin
  obtain ⟨htoken', hlayer', hword'⟩ := hright.launched htoken hlayer hword
  have hmem : (c.cellAt layer (c.vllmOffset kOrV 0 word), c.lmcacheOffset kOrV layer token word) ∈
      c.threads (c.probe token) 0 :=
    (mem_threads (slotMapping_probe c token).length (zero_le _)).mpr ⟨token, 0, zero_le _,
      (getElem?_probe htoken _ _).mpr ⟨rfl, rfl⟩, htoken', layer, hlayer', kOrV, hkOrV, word,
      hword', rfl⟩
  have hoffset : c.lmcacheOffset kOrV layer token word = -2 ^ 31 := by
    rw [lmcacheOffset_eq hright.origin]
    exact congrArg (fun n => (ofNat n).toInt) hindex
  have houtside := (hright.roundTrip _ 0 (slotMapping_probe c token) (zero_le _) _ _ (.refl _)
    (.refl _) (fun _ => v) (fun _ => w) fun _ => w).1 (c.lmcacheOffset kOrV layer token word)
    (.inl (by rw [hoffset]; decide))
  have hinside : transferD2H (c.threads (c.probe token) 0) (fun _ => v) (fun _ => w)
      (c.lmcacheOffset kOrV layer token word) = v :=
    copyAll_of_mem ⟨_, mem_map_of_mem hmem, rfl⟩ fun _ _ _ => rfl
  exact hvw (hinside.symm.trans houtside)

theorem elementsPerEntry_mul (c : PagedKV) : c.elementSize * c.elementsPerEntry = 8 := by
  rw [elementsPerEntry]
  rcases c.element with he | he | he | he <;> rw [he]

theorem Right.entries (hright : c.Right V) [Nontrivial V] (hformat : c.format ≠ .nbNlTwoBsNhHs) :
    8 ∣ c.headSize * c.elementSize := by
  by_contra hdvd
  obtain ⟨-, -, -, hheads, -, htokens⟩ := c.sizes
  have hmul := c.elementsPerEntry_mul
  have hwords := c.wordsPerToken_pos
  obtain ⟨htoken, -, hword⟩ := hright.launched htokens c.sizes.1 (sub_one_lt hwords.ne')
  have hshort : 8 * (c.headSize / c.elementsPerEntry) < c.headSize * c.elementSize := by
    refine lt_of_le_of_ne ?_ fun heq => hdvd ⟨_, heq.symm⟩
    calc 8 * (c.headSize / c.elementsPerEntry)
        = c.elementSize * (c.elementsPerEntry * (c.headSize / c.elementsPerEntry)) := by
          rw [← hmul, mul_assoc]
      _ ≤ c.elementSize * c.headSize := mul_le_mul_left _ (mul_div_le _ _)
      _ = c.headSize * c.elementSize := mul_comm _ _
  have hwordSize : 0 < c.wordSize := by rw [wordSize]; split_ifs <;> decide
  have hrange := c.kOrVSize_pos
  obtain ⟨token, slot, hslot, -, i, hi, kOrV, hkOrV, byte, hbyte, hbytes⟩ :=
    (hright.singleLayer hformat true (c.probe 0) (slotMapping_probe c 0) _).mpr
      ⟨0, 0, (getElem?_probe htokens 0 0).mpr ⟨rfl, rfl⟩, htoken, c.wordsPerToken - 1, hword,
        c.kOrVSize - 1, sub_one_lt hrange.ne',
        c.wordSize - 1, sub_one_lt hwordSize.ne', rfl⟩
  obtain ⟨rfl, rfl⟩ := (getElem?_probe htokens token slot).mp hslot
  have hplace := (Prod.mk.inj hbytes).1
  have hkey : 8 * i + 8 ≤ 8 * (c.numHeads * (c.headSize / c.elementsPerEntry)) := by
    rw [headSizeIn64bit, ← ofNat_mul] at hi
    have := hi.trans_le (toInt_ofNat_le _)
    omega
  have hheadBytes : 8 * (c.numHeads * (c.headSize / c.elementsPerEntry)) <
      c.wordsPerToken * c.wordSize := by
    rw [c.wordsPerToken_mul, numOriginElements, mul_left_comm, mul_assoc]
    exact mul_lt_mul_of_pos_left hshort hheads
  have hvalue : 8 * (kOrV * (c.lmcValueOffset true).toInt) ≤
      ((c.kOrVSize - 1) * (c.lmcStrides true).2 * c.elementSize : ℕ) := by
    calc 8 * (kOrV * (c.lmcValueOffset true).toInt)
        ≤ 8 * (kOrV * ((c.lmcStrides true).2 / c.elementsPerEntry : ℕ)) :=
          Int.mul_le_mul_of_nonneg_left (Int.mul_le_mul_of_nonneg_left (toInt_ofNat_le _)
            (Int.natCast_nonneg _)) (by decide)
      _ = (kOrV * (c.elementSize * (c.elementsPerEntry *
            ((c.lmcStrides true).2 / c.elementsPerEntry))) : ℕ) := by
          rw [← mul_assoc c.elementSize, hmul]
          push_cast
          ring
      _ ≤ ((c.kOrVSize - 1) * (c.lmcStrides true).2 * c.elementSize : ℕ) := by
          refine Int.ofNat_le.mpr ?_
          rw [mul_assoc, mul_comm (c.lmcStrides true).2]
          exact Nat.mul_le_mul (Nat.le_sub_one_of_lt hkOrV) (mul_le_mul_left _ (mul_div_le _ _))
  have hlast : (c.wordsPerToken - 1) * c.wordSize + c.wordSize = c.wordsPerToken * c.wordSize := by
    rw [← Nat.succ_mul, Nat.succ_eq_add_one, Nat.sub_add_cancel hwords]
  rw [Nat.zero_mul, Nat.zero_add, Nat.cast_zero, Int.zero_mul, Int.zero_add] at hplace
  omega

end Necessary

section SingleLayer

theorem mul_toInt {a n : ℕ} (h : a = 0 ∨ n < 2 ^ 31) : (a : ℤ) * (ofNat n).toInt = (a * n : ℕ) := by
  rcases h with rfl | h
  · rw [Nat.cast_zero, Int.zero_mul, Nat.zero_mul, Nat.cast_zero]
  · rw [toInt_ofNat_of_lt h, cast_mul]

variable {tokenMajor : Bool} {token slot : ℕ}

structure WholeWords (c : PagedKV) : Prop where
  wordSize : c.wordSize = 8
  words : c.numHeads * (c.headSize / c.elementsPerEntry) = c.wordsPerToken
  elements : c.numOriginElements = c.wordsPerToken * c.elementsPerEntry
  entries : c.elementSize * c.elementsPerEntry = 8
  entry : 0 < c.elementsPerEntry

theorem Fits.wholeWords (hfits : c.Fits) (hformat : c.format ≠ .nbNlTwoBsNhHs) : c.WholeWords := by
  obtain ⟨q, hq⟩ := hfits.entries hformat
  have hmul := c.elementsPerEntry_mul
  have hentry : 0 < c.elementsPerEntry := pos_of_ne_zero fun hzero => by
    rw [hzero, Nat.mul_zero] at hmul
    cases hmul
  have helement : 0 < c.elementSize := Nat.pos_of_ne_zero fun hzero => by
    rw [hzero, Nat.zero_mul] at hmul
    cases hmul
  have hhead : c.headSize = c.elementsPerEntry * q := by
    refine Nat.eq_of_mul_eq_mul_left helement ?_
    rw [← Nat.mul_assoc, hmul, Nat.mul_comm, hq]
  have hcopy : c.numOriginElements * c.elementSize = 8 * (c.numHeads * q) := by
    rw [numOriginElements, mul_assoc, hq, mul_left_comm]
  have hsize : c.wordSize = 8 := by
    rw [wordSize_eq, if_pos]
    omega
  have hX := c.wordsPerToken_mul
  rw [hsize, hcopy] at hX
  have hwords : c.wordsPerToken = c.numHeads * q := by omega
  refine ⟨hsize, ?_, ?_, hmul, hentry⟩
  · rw [hhead, Nat.mul_div_cancel_left _ hentry, hwords]
  · rw [numOriginElements, hhead, hwords, Nat.mul_assoc, Nat.mul_comm q]

theorem Fits.lmcIdx (hfits : c.Fits) (tokenMajor : Bool) (kOrV : ℕ) (hwhole : c.WholeWords)
    (htoken : token < c.numTokens) :
    8 * (token * (c.lmcStride tokenMajor).toInt + kOrV * (c.lmcValueOffset tokenMajor).toInt) =
      ((token * (c.lmcStrides tokenMajor).1 + kOrV * (c.lmcStrides tokenMajor).2) *
        c.elementSize : ℕ) := by
  obtain ⟨m, v, hstrides, hm, hv⟩ : ∃ m v, c.lmcStrides tokenMajor =
      (m * c.elementsPerEntry, v * c.elementsPerEntry) ∧ m ≤ c.kOrVSize * c.wordsPerToken ∧
        2 * v ≤ c.kOrVSize * (c.numTokens * c.wordsPerToken) := by
    have htokens := Nat.le_mul_of_pos_left c.wordsPerToken (Nat.zero_lt_of_lt htoken)
    rw [lmcStrides, kOrVSize, hwhole.elements]
    split_ifs
    · exact ⟨c.wordsPerToken, 0, by rw [Nat.zero_mul], by omega, by omega⟩
    · exact ⟨2 * c.wordsPerToken, c.wordsPerToken, by rw [Nat.mul_assoc], le_rfl, by omega⟩
    · exact ⟨c.wordsPerToken, c.numTokens * c.wordsPerToken, by rw [Nat.mul_assoc], by omega, le_rfl⟩
  have hobject : c.numLayers * (c.kOrVSize * (c.numTokens * c.wordsPerToken)) ≤ 2 ^ 31 := by
    rw [← Nat.mul_assoc, ← Nat.mul_assoc, Nat.mul_comm c.numLayers]
    exact hfits.object
  have hlayer := Nat.le_mul_of_pos_left (c.kOrVSize * (c.numTokens * c.wordsPerToken)) c.sizes.1
  have hfirst : token = 0 ∨ m < 2 ^ 31 := by
    refine (Nat.eq_zero_or_pos token).imp_right fun hpos => ?_
    have htwo : 2 * (c.kOrVSize * c.wordsPerToken) ≤ c.kOrVSize * (c.numTokens * c.wordsPerToken) := by
      rw [Nat.mul_left_comm]
      exact Nat.mul_le_mul_left _ (Nat.mul_le_mul_right _ (by omega))
    omega
  rw [lmcStride, lmcValueOffset, hstrides, Nat.mul_div_cancel _ hwhole.entry,
    Nat.mul_div_cancel _ hwhole.entry, mul_toInt hfirst, mul_toInt (.inr (by omega)),
    ← Nat.cast_add, ← Nat.cast_ofNat, ← Nat.cast_mul, ← hwhole.entries]
  congr 1
  ring

theorem Fits.vllmIdx (hfits : c.Fits) (kOrV i : ℕ) (hwhole : c.WholeWords)
    (hformat : c.format ≠ .nbNlTwoBsNhHs) (hslot : slot < c.numBlocks * c.blockSize) :
    (slot / c.vllmBlockSize : ℕ) * c.vllmBlockKeyStride.toInt +
        (slot % c.vllmBlockSize * c.wordsPerToken + i : ℕ) + kOrV * c.vllmValueOffset.toInt =
      index (c.dims kOrV slot i) := by
  have hblock : slot / c.blockSize < c.numBlocks := Nat.div_lt_of_lt_mul (by rwa [Nat.mul_comm])
  have hpaged : c.numBlocks * (c.kOrVSize * (c.blockSize * c.wordsPerToken)) ≤ 2 ^ 31 := by
    refine le_trans (le_of_eq ?_) hfits.paged
    ring
  have hvalue := Nat.le_mul_of_pos_left (c.kOrVSize * (c.blockSize * c.wordsPerToken)) c.sizes.2.1
  have hstride : slot / c.blockSize = 0 ∨ c.kOrVSize * (c.blockSize * c.wordsPerToken) < 2 ^ 31 := by
    refine (eq_zero_or_pos _).imp_right fun hpos => ?_
    have := mul_le_mul_right (c.kOrVSize * (c.blockSize * c.wordsPerToken))
      (show 2 ≤ c.numBlocks by omega)
    omega
  obtain ⟨m, v, hm, hv, hmlt, hvlt, hindex⟩ : ∃ m v : ℕ, c.vllmBlockKeyStride = .ofNat m ∧
      c.vllmValueOffset = .ofNat v ∧ (slot / c.vllmBlockSize = 0 ∨ m < 2 ^ 31) ∧ v < 2 ^ 31 ∧
      slot / c.vllmBlockSize * m + (slot % c.vllmBlockSize * c.wordsPerToken + i) + kOrV * v =
        index (c.dims kOrV slot i) := by
    have hdiv : ∀ n, n * (c.wordsPerToken * c.elementsPerEntry) / c.elementsPerEntry = n * c.wordsPerToken :=
      fun n => by rw [← Nat.mul_assoc, Nat.mul_div_cancel _ hwhole.entry]
    rw [vllmBlockKeyStride, vllmValueOffset, vllmBlockSize, hwhole.elements]
    rw [kOrVSize] at hpaged hvalue hstride
    cases h : c.format <;> simp only [h, isMla, reduceCtorEq, if_true, if_false,
      Bool.false_eq_true] at hpaged hvalue hstride ⊢
    · exact absurd h hformat
    · refine ⟨c.blockSize * c.wordsPerToken, c.numBlocks * (c.blockSize * c.wordsPerToken), ?_, ?_, by omega,
        ?_, ?_⟩
      · rw [hdiv]
      · rw [← mul_assoc, hdiv, mul_assoc]
      · rw [mul_left_comm] at hpaged
        omega
      · simp only [dims, h, index, volume_cons, volume_nil]
        ring
    · refine ⟨2 * (c.blockSize * c.wordsPerToken), c.blockSize * c.wordsPerToken, ?_, ?_, by omega, by omega,
        ?_⟩
      · rw [← mul_assoc, hdiv, mul_assoc]
      · rw [hdiv]
      · simp only [dims, h, index, volume_cons, volume_nil]
        ring
    · refine ⟨c.blockSize * c.wordsPerToken, 0, by rw [hdiv], rfl, by omega, by omega, ?_⟩
      simp only [dims, h, index, volume_cons, volume_nil]
      ring
    · refine ⟨c.wordsPerToken, 0, by rw [hdiv, Nat.one_mul], rfl, .inr hfits.words, by omega, ?_⟩
      simp only [dims, h, index, volume_cons, volume_nil, Nat.div_one, Nat.mod_one]
      ring
  rw [hm, hv, mul_toInt hmlt, mul_toInt (.inr hvlt), ← hindex]
  simp only [cast_add]

theorem Fits.singleLayer (hfits : c.Fits) (hformat : c.format ≠ .nbNlTwoBsNhHs)
    {slotMapping : List ℤ} (h : c.SlotMapping slotMapping) (bytes : ℤ × ℤ) :
    c.SingleMoves tokenMajor slotMapping bytes ↔ c.MultiMoves tokenMajor slotMapping bytes := by
  have hwhole := hfits.wholeWords hformat
  have hhead : c.headSizeIn64bit.toInt.toNat = c.headSize / c.elementsPerEntry := by
    have hle := Nat.le_mul_of_pos_left (c.headSize / c.elementsPerEntry) c.sizes.2.2.2.1
    rw [hwhole.words] at hle
    rw [headSizeIn64bit, toInt_ofNat_of_lt (hle.trans_lt hfits.words), Int.toNat_natCast]
  rw [SingleMoves, MultiMoves, headSizeIn64bit, ← ofNat_mul, hwhole.words, hwhole.wordSize]
  rw [← headSizeIn64bit]
  refine exists₂_congr fun token slot => and_congr_right fun hslot => ?_
  rw [h.length, numXwords_eq hfits.origin]
  refine and_congr_right fun _ => exists_congr fun i => and_congr_right fun hi => exists_congr fun kOrV => and_congr_right fun hkOrV =>
    exists_congr fun byte => and_congr_right fun hbyte => ?_
  obtain ⟨hlt, htoken⟩ := h.slot_lt hslot
  have hword : i < c.wordsPerToken := by
    rw [toInt_ofNat_of_lt hfits.words] at hi
    exact Int.ofNat_lt.mp hi
  have hlmc := hfits.lmcIdx tokenMajor kOrV hwhole htoken
  have hvllm := hfits.vllmIdx kOrV i hwhole hformat hlt
  have hindex := (index_lt hfits.layout hkOrV hlt hword).trans_le hfits.paged
  dsimp only
  rw [vllmOffset_eq hfits.origin hfits.layout hlt, toInt_ofNat_of_lt hindex, ← hvllm, hhead,
    Nat.mul_assoc _ c.numHeads, hwhole.words, Nat.add_assoc, Nat.div_add_mod',
    cast_add _ (i * 8), ← hlmc]
  push_cast
  constructor <;> rintro rfl <;> refine Prod.ext ?_ ?_ <;> ring

end SingleLayer

end PagedKV

end LMCache.MemKernels
