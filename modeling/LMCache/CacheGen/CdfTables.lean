import LMCache.CacheGen.DecoderCode
import LMCache.CacheGen.StreamPacking

namespace LMCache

open Function List Nat Slice AcDecoder

namespace CalculateCdf

def normalizeCdfValue (cdfValue maxCdfValue : BitVec 16) (maxBins : ℕ) : BitVec 16 :=
  (BitVec.ofNat 32 (0xFFFF - maxBins) * cdfValue.setWidth 32 / maxCdfValue.setWidth 32).setWidth 16

def countValue (hist : ℕ → BitVec 16) (value : BitVec 8) : ℕ → BitVec 16 :=
  update hist (value.toNat + 1) (hist (value.toNat + 1) + 1)

def accumulate (hist : ℕ → BitVec 16) : ℕ → (ℕ → BitVec 16) × BitVec 16
  | 0 => (hist, 0)
  | i + 1 =>
      let (hist, localSum) := accumulate hist i
      (update hist (i + 1) (hist (i + 1) + localSum), localSum + hist (i + 1))

def histogram (input : List (BitVec 8)) : ℕ → BitVec 16 := input.foldl countValue fun _ => 0

def calculateCdf (maxBins : ℕ) (input : List (BitVec 8)) : List (BitVec 16) :=
  let (hist, localSum) := accumulate (histogram input) maxBins
  (range (maxBins + 1)).map fun i =>
    normalizeCdfValue (hist i) localSum maxBins + BitVec.ofNat 16 i

def below (input : List (BitVec 8)) (bin : ℕ) : ℕ := input.countP fun sym => sym.toNat < bin

variable {input : List (BitVec 8)} {maxBins : ℕ}

theorem below_succ (input : List (BitVec 8)) (bin : ℕ) :
    below input (bin + 1) = below input bin + input.countP fun sym => sym.toNat = bin := by
  induction input with
  | nil => rfl
  | cons sym input ih =>
    simp only [below, countP_cons, decide_eq_true_eq] at ih ⊢
    rw [ih]
    split_ifs <;> omega

theorem below_mono (input : List (BitVec 8)) {i j : ℕ} (h : i ≤ j) : below input i ≤ below input j :=
  countP_mono_left fun _ _ hlt => decide_eq_true ((of_decide_eq_true hlt).trans_le h)

theorem below_eq_length (hsyms : ∀ sym ∈ input, sym.toNat < maxBins) :
    below input maxBins = input.length :=
  countP_eq_length.mpr fun sym hsym => decide_eq_true (hsyms sym hsym)

theorem histogram_succ (input : List (BitVec 8)) (bin : ℕ) :
    histogram input (bin + 1) = BitVec.ofNat 16 (input.countP fun sym => sym.toNat = bin) := by
  have hfold : ∀ hist, input.foldl countValue hist (bin + 1) =
      hist (bin + 1) + BitVec.ofNat 16 (input.countP fun sym => sym.toNat = bin) := by
    induction input with
    | nil => simp
    | cons sym input ih =>
      intro hist
      rw [foldl_cons, ih, countP_cons, BitVec.ofNat_add]
      by_cases hbin : sym.toNat = bin
      · simp [countValue, hbin, BitVec.add_assoc, BitVec.add_comm]
      · rw [countValue, update_of_ne (by omega)]
        simp [hbin]
  rw [histogram, hfold]
  exact BitVec.zero_add _

theorem histogram_zero (input : List (BitVec 8)) : histogram input 0 = 0 := by
  have hfold : ∀ hist : ℕ → BitVec 16, input.foldl countValue hist 0 = hist 0 := by
    induction input with
    | nil => exact fun _ => rfl
    | cons sym input ih =>
      intro hist
      rw [foldl_cons, ih, countValue, update_of_ne (succ_ne_zero _).symm]
  exact hfold _

-- the running sum of the loop is the count of the symbols below the bin, both modulo 2^16
theorem accumulate_spec (input : List (BitVec 8)) (n : ℕ) :
    (accumulate (histogram input) n).2 = BitVec.ofNat 16 (below input n) ∧
      ∀ i, (accumulate (histogram input) n).1 i =
        if i ≤ n then BitVec.ofNat 16 (below input i) else histogram input i := by
  have hzero : below input 0 = 0 := by simp [below]
  induction n with
  | zero =>
    refine ⟨by rw [hzero]; rfl, fun i => ?_⟩
    split_ifs with hi
    · obtain rfl := le_zero.mp hi
      rw [hzero]
      exact histogram_zero input
    · rfl
  | succ n ih =>
    obtain ⟨hsum, hhist⟩ := ih
    have hbin := (hhist (n + 1)).trans (if_neg (not_succ_le_self n))
    rw [histogram_succ] at hbin
    have hnext := below_succ input n
    refine ⟨?_, fun i => ?_⟩
    · simp only [accumulate, hsum, hbin, hnext, BitVec.ofNat_add]
    · simp only [accumulate]
      by_cases hi : i = n + 1
      · rw [hi, update_self, if_pos le_rfl, hsum, hbin, ← BitVec.ofNat_add, hnext, add_comm]
      · rw [update_of_ne hi, hhist]
        exact if_congr (by omega) rfl rfl

theorem toNat_normalizeCdfValue {cdfValue maxCdfValue : BitVec 16} (hle : cdfValue ≤ maxCdfValue)
    (maxBins : ℕ) : (normalizeCdfValue cdfValue maxCdfValue maxBins).toNat =
      (0xFFFF - maxBins) * cdfValue.toNat / maxCdfValue.toNat := by
  have hscale : 0xFFFF - maxBins < 2 ^ 16 := by omega
  have hproduct : (0xFFFF - maxBins) * cdfValue.toNat < 2 ^ 32 :=
    (Nat.mul_lt_mul'' hscale cdfValue.isLt).trans_eq rfl
  have hquotient : (0xFFFF - maxBins) * cdfValue.toNat / maxCdfValue.toNat < 2 ^ 16 := by
    refine lt_of_le_of_lt (Nat.div_le_of_le_mul ?_) hscale
    rw [Nat.mul_comm maxCdfValue.toNat]
    exact mul_le_mul_left _ hle
  have hwide : ∀ x : BitVec 16, x.toNat % 2 ^ 32 = x.toNat := fun x =>
    mod_eq_of_lt (x.isLt.trans (by decide))
  rw [normalizeCdfValue, BitVec.toNat_setWidth, BitVec.toNat_udiv, BitVec.toNat_mul,
    BitVec.toNat_ofNat, BitVec.toNat_setWidth, BitVec.toNat_setWidth, hwide, hwide,
    mod_eq_of_lt (hscale.trans (by decide)), mod_eq_of_lt hproduct,
    mod_eq_of_lt hquotient]

theorem toNat_calculateCdf (hcount : input.length < 2 ^ 16) (hsyms : ∀ sym ∈ input, sym.toNat < maxBins)
    (hbins : maxBins < 2 ^ 16) {i : ℕ} {value : BitVec 16}
    (hvalue : (calculateCdf maxBins input)[i]? = some value) :
    value.toNat = (0xFFFF - maxBins) * below input i / input.length + i := by
  obtain ⟨hsum, hhist⟩ := accumulate_spec input maxBins
  rw [below_eq_length hsyms] at hsum
  rw [calculateCdf, getElem?_map, Option.map_eq_some_iff] at hvalue
  obtain ⟨j, hj, rfl⟩ := hvalue
  obtain ⟨hlt, rfl⟩ := List.getElem?_eq_some_iff.mp hj
  rw [length_range] at hlt
  have hle : i ≤ maxBins := le_of_lt_succ hlt
  have hbelow := below_mono input hle
  rw [below_eq_length hsyms] at hbelow
  rw [getElem_range, hsum, hhist, if_pos hle, BitVec.toNat_add, toNat_normalizeCdfValue,
    BitVec.toNat_ofNat, BitVec.toNat_ofNat, BitVec.toNat_ofNat, mod_eq_of_lt hcount,
    mod_eq_of_lt (hbelow.trans_lt hcount), mod_eq_of_lt (hle.trans_lt hbins)]
  · refine mod_eq_of_lt ?_
    have hscaled : (0xFFFF - maxBins) * below input i / input.length ≤ 0xFFFF - maxBins := by
      refine Nat.div_le_of_le_mul ?_
      rw [Nat.mul_comm input.length]
      exact mul_le_mul_left _ hbelow
    omega
  · rw [BitVec.le_def, BitVec.toNat_ofNat, BitVec.toNat_ofNat, mod_eq_of_lt hcount,
      mod_eq_of_lt (hbelow.trans_lt hcount)]
    exact hbelow

theorem increasing_calculateCdf (hcount : input.length < 2 ^ 16)
    (hsyms : ∀ sym ∈ input, sym.toNat < maxBins) (hbins : maxBins < 2 ^ 16) :
    (calculateCdf maxBins input).Pairwise (· < ·) := by
  refine pairwise_iff_getElem.mpr fun i j hi hj hlt => ?_
  rw [BitVec.lt_def, toNat_calculateCdf hcount hsyms hbins (getElem?_eq_getElem hi),
    toNat_calculateCdf hcount hsyms hbins (getElem?_eq_getElem hj)]
  exact add_lt_add_of_le_of_lt
    (Nat.div_le_div_right (Nat.mul_le_mul_left _ (below_mono input hlt.le))) hlt

theorem length_calculateCdf : (calculateCdf maxBins input).length = maxBins + 1 := by
  simp [calculateCdf]

def cdf (hne : input ≠ []) (hcount : input.length < 2 ^ 16)
    (hsyms : ∀ sym ∈ input, sym.toNat < maxBins) (hbins : maxBins ≤ 47) : Cdf where
  values := calculateCdf maxBins input
  two_le := by
    obtain ⟨sym, hsym⟩ := exists_mem_of_ne_nil input hne
    have hpos := hsyms sym hsym
    rw [length_calculateCdf]
    omega
  le_maxLp := by
    rw [length_calculateCdf]
    exact succ_le_succ hbins
  increasing := increasing_calculateCdf hcount hsyms (hbins.trans_lt (by decide))
  starts := by
    have hzero : 0 < (calculateCdf maxBins input).length := by simp [length_calculateCdf]
    have hvalue := toNat_calculateCdf hcount hsyms (hbins.trans_lt (by decide))
      (getElem?_eq_getElem hzero)
    rw [getElem?_eq_getElem hzero, Option.some.injEq]
    refine BitVec.eq_of_toNat_eq (hvalue.trans ?_)
    simp [below]

end CalculateCdf

namespace CacheGenEncoder

variable {input : List (BitVec 8)} {maxBins : ℕ}

def blocks (input : List (BitVec 8)) : List (List (BitVec 8)) :=
  (range ((input.length + 255) / 256)).map fun i =>
    slice input (256 * i) (min (256 * i + 256) input.length)

theorem flatten_blocks (input : List (BitVec 8)) : (blocks input).flatten = input := by
  have hfirst : ∀ n, ((range n).map fun i =>
      slice input (256 * i) (min (256 * i + 256) input.length)).flatten =
        slice input 0 (min (256 * n) input.length) := by
    intro n
    induction n with
    | zero => simp [slice]
    | succ n ih =>
      rw [range_succ, map_append, flatten_append, ih, map_singleton, flatten_singleton]
      rcases le_total (256 * n) input.length with hle | hle
      · rw [min_eq_left hle]
        exact slice_append input (zero_le _) (le_min (le_add_right _ _) hle)
      · rw [min_eq_right hle, min_eq_right (by omega), min_eq_right (by omega),
          slice, slice, take_length, drop_eq_nil_of_le hle, append_nil]
  rw [blocks, hfirst]
  refine slice_all input ?_
  omega

variable {block : List (BitVec 8)}

theorem length_of_mem_blocks (h : block ∈ blocks input) :
    block.length ≤ 256 := by
  obtain ⟨i, -, rfl⟩ := mem_map.mp h
  rw [length_slice input (min_le_right _ _)]
  omega

-- the table of the whole chunk serves every block of it
theorem decode_mem_blocks (hne : input ≠ []) (hcount : input.length < 2 ^ 16)
    (hsyms : ∀ sym ∈ input, sym.toNat < maxBins) (hbins : maxBins ≤ 47)
    (hblock : block ∈ blocks input) :
    ∃ bytes, AcEncoder.encode 33 (CalculateCdf.cdf hne hcount hsyms hbins) block = some bytes ∧
      (bytes.length ≤ 256 → ∀ nextRow, ∃ d, decode (bytestreamsShared bytes nextRow) 33
        (CalculateCdf.cdf hne hcount hsyms hbins) block.length = some d ∧ d.output = block) := by
  have hblockSyms : ∀ sym ∈ block,
      sym.toNat < (CalculateCdf.cdf hne hcount hsyms hbins).lp - 1 := by
    intro sym hsym
    have hmem : sym ∈ input := flatten_blocks input ▸ mem_flatten.mpr ⟨block, hblock, hsym⟩
    refine (hsyms sym hmem).trans_eq ?_
    rw [Cdf.lp, CalculateCdf.cdf, CalculateCdf.length_calculateCdf, Nat.add_sub_cancel]
  have hvalid := (CalculateCdf.cdf hne hcount hsyms hbins).valid block hblockSyms
  obtain ⟨bytes, bits, hencode, hcode, n, -, hpadded⟩ :=
    AcEncoder.encode_spec le_rfl hvalid (length_of_mem_blocks hblock)
  refine ⟨bytes, hencode, fun hfits nextRow => ?_⟩
  have hstarts := starts_bytesBits fun j byte =>
    bytestreamsShared_of_getElem? hfits nextRow
  rw [hpadded] at hstarts
  obtain ⟨d, hdecode, houtput, -⟩ := decodeLoop_spec le_rfl
    ⟨_, 32, follows_init hvalid hcode hstarts.prefix⟩ (settled_init _)
    ⟨fun v hv => absurd hv not_mem_nil, fun q hq => absurd hq not_mem_nil⟩ hblockSyms
  exact ⟨d, hdecode, houtput⟩

theorem map_encodeRanges (input : List (BitVec 8)) :
    ((encodeRanges input.length).map fun r => slice input r.1 r.2) = blocks input := by
  refine ext_getElem (by simp [encodeRanges, blocks, cachegenGpuMaxTokensPerChunk]) fun i _ _ => ?_
  simp [encodeRanges, blocks, cachegenGpuMaxTokensPerChunk]

structure QuantizedChunk where
  nlayers : ℕ
  nchannels : ℕ
  ntokens : ℕ
  maxBins : ℕ → ℕ
  input : ℕ → ℕ → List (BitVec 8)
  channels : 0 < nchannels
  tokens : 0 < ntokens ∧ ntokens < 2 ^ 16
  bins : ∀ layer, maxBins layer ≤ 47
  length_input : ∀ layer channel, (input layer channel).length = ntokens
  symbols : ∀ layer channel, ∀ sym ∈ input layer channel, sym.toNat < maxBins layer

namespace QuantizedChunk

variable (q : QuantizedChunk) (outputBuffer : ℕ × ℕ → ℕ → ℕ → ℕ → UInt8) (nextRow : ℕ → BitVec 8)
  (r : ℕ × ℕ) (layer channel : ℕ)

theorem input_ne_nil : q.input layer channel ≠ [] :=
  ne_nil_of_length_pos (q.tokens.1.trans_eq (q.length_input layer channel).symm)

def cdf : Cdf :=
  CalculateCdf.cdf (q.input_ne_nil layer channel)
    ((q.length_input layer channel).trans_lt q.tokens.2) (q.symbols layer channel) (q.bins layer)

def code : List (BitVec 8) :=
  (AcEncoder.encode 33 (q.cdf layer channel) (slice (q.input layer channel) r.1 r.2)).getD []

-- output_buffer keeps what an earlier range left behind the code; a code longer than its row is
-- cut here, where the kernel writes on into the next row
def encodeNtokens : StreamBuffer where
  nlayers := q.nlayers
  nchannels := q.nchannels
  outputBufferSize := 256
  outputBuffer layer channel j :=
    ((q.code r layer channel)[j]?.map UInt8.ofBitVec).getD (outputBuffer r layer channel j)
  outputLengths layer channel := min (q.code r layer channel).length 256
  lengthsLe _ _ := min_le_right _ _

def decodeChunk (b : StreamBuffer) (ntokens : ℕ) : Option (List (BitVec 8)) := do
  let rows ← b.decodeCudaPrefsum (← b.collectBytes)
  let d ← decode
    (bytestreamsShared ((rows layer channel).map UInt8.toBitVec) nextRow) 33
    (q.cdf layer channel) ntokens
  return d.output

def decodeFunctionGpu : Option (List (BitVec 8)) := do
  let parts ← (encodeRanges q.ntokens).mapM fun r =>
    q.decodeChunk nextRow layer channel (q.encodeNtokens outputBuffer r) (r.2 - r.1)
  return parts.flatten

variable {r layer channel}

theorem length_packed_le (hstreams : 256 * (q.nlayers * q.nchannels) ≤ int32Max) :
    (q.encodeNtokens outputBuffer r).packed.length ≤ int32Max := by
  rw [StreamBuffer.length_packed]
  have hrows := PackedRows.before_add (f := (q.encodeNtokens outputBuffer r).flattenedLength)
    (n := q.nlayers * q.nchannels) (fun _ _ => Nat.add_sub_cancel' (min_le_right _ _)) le_rfl
  exact (Nat.le_add_right _ _).trans (hrows.trans_le ((Nat.mul_comm _ _).trans_le hstreams))

theorem stream_encodeNtokens (hfits : (q.code r layer channel).length ≤ 256) :
    (q.encodeNtokens outputBuffer r).stream layer channel =
      (q.code r layer channel).map UInt8.ofBitVec := by
  refine ext_getElem (by simp [StreamBuffer.stream, encodeNtokens, hfits]) fun i _ hi => ?_
  rw [length_map] at hi
  simp [StreamBuffer.stream, encodeNtokens, hi]

theorem bytestreamsShared_padded (bytes : List (BitVec 8)) (pad : ℕ) :
    bytestreamsShared ((bytes.map UInt8.ofBitVec ++ replicate pad 0).map UInt8.toBitVec) nextRow =
      bytestreamsShared bytes nextRow := by
  funext j
  have hid : UInt8.toBitVec ∘ UInt8.ofBitVec = id := rfl
  rw [bytestreamsShared, bytestreamsShared, map_append, map_map, hid, map_id, map_replicate,
    getD_eq_getElem?_getD, getD_eq_getElem?_getD]
  by_cases hj : j < bytes.length
  · rw [getElem?_append_left hj]
  · rw [getElem?_append_right (not_lt.mp hj), getElem?_replicate, getElem?_eq_none (not_lt.mp hj)]
    split_ifs <;> rfl

theorem decodeChunk_encodeNtokens (hr : r ∈ encodeRanges q.ntokens)
    (hfits : (q.code r layer channel).length ≤ 256)
    (hstreams : 256 * (q.nlayers * q.nchannels) ≤ int32Max) (hlayer : layer < q.nlayers)
    (hchannel : channel < q.nchannels) :
    q.decodeChunk nextRow layer channel (q.encodeNtokens outputBuffer r) (r.2 - r.1) =
      some (slice (q.input layer channel) r.1 r.2) := by
  have hlength := q.length_input layer channel
  have hblock : slice (q.input layer channel) r.1 r.2 ∈ blocks (q.input layer channel) := by
    rw [← map_encodeRanges, hlength]
    exact mem_map_of_mem hr
  obtain ⟨bytes, hencode, hdecode⟩ := decode_mem_blocks (q.input_ne_nil layer channel)
    (hlength.trans_lt q.tokens.2) (q.symbols layer channel) (q.bins layer) hblock
  have hcode : q.code r layer channel = bytes := by
    rw [code, cdf, hencode, Option.getD_some]
  have hunpacks := (q.encodeNtokens outputBuffer r).unpacks q.channels le_rfl q.ntokens
  obtain ⟨rows, hrows⟩ := Option.isSome_iff_exists.mp
    (hunpacks.accepts (q.length_packed_le outputBuffer hstreams) (by
      change q.nlayers * q.nchannels ≤ _; omega))
  obtain ⟨pad, hrow⟩ := hunpacks.slices rows hrows layer hlayer channel hchannel
  rw [q.stream_encodeNtokens outputBuffer hfits, hcode] at hrow
  have hend : (slice (q.input layer channel) r.1 r.2).length = r.2 - r.1 := by
    refine length_slice _ ?_
    obtain ⟨i, -, rfl⟩ := mem_map.mp hr
    exact (min_le_right _ _).trans_eq hlength.symm
  obtain ⟨d, hd, houtput⟩ := hdecode (hcode ▸ hfits) nextRow
  rw [hend] at hd
  rw [decodeChunk, hunpacks.packs, Option.bind_eq_bind, Option.bind_some, hrows]
  simp only [Option.bind_eq_bind, Option.bind_some, hrow, bytestreamsShared_padded]
  rw [cdf, hd, Option.bind_some, houtput]
  rfl

theorem decodeFunctionGpu_eq_input
    (hfits : ∀ r ∈ encodeRanges q.ntokens, ∀ layer channel, (q.code r layer channel).length ≤ 256)
    (hstreams : 256 * (q.nlayers * q.nchannels) ≤ int32Max) (hlayer : layer < q.nlayers)
    (hchannel : channel < q.nchannels) :
    q.decodeFunctionGpu outputBuffer nextRow layer channel = some (q.input layer channel) := by
  have hparts : ∀ ranges : List (ℕ × ℕ), (∀ r ∈ ranges, r ∈ encodeRanges q.ntokens) →
      (ranges.mapM fun r =>
        q.decodeChunk nextRow layer channel (q.encodeNtokens outputBuffer r) (r.2 - r.1)) =
        some (ranges.map fun r => slice (q.input layer channel) r.1 r.2) := by
    intro ranges hranges
    induction ranges with
    | nil => rfl
    | cons r ranges ih =>
      have hr := hranges r mem_cons_self
      rw [mapM_cons, q.decodeChunk_encodeNtokens outputBuffer nextRow hr (hfits r hr layer channel)
        hstreams hlayer hchannel, ih fun r hr => hranges r (mem_cons_of_mem _ hr)]
      rfl
  rw [decodeFunctionGpu, hparts _ fun _ hr => hr]
  change some (flatten _) = _
  rw [← q.length_input layer channel, map_encodeRanges, flatten_blocks]

def threeTokens : QuantizedChunk where
  nlayers := 2
  nchannels := 2
  ntokens := 3
  maxBins _ := 2
  input _ _ := [0, 1, 0]
  channels := Nat.two_pos
  tokens := by decide
  bins _ := by decide
  length_input _ _ := rfl
  symbols _ _ := by decide

theorem decodeFunctionGpu_eq_input_threeTokens :
    threeTokens.decodeFunctionGpu (fun _ _ _ _ => 7) (fun _ => 9) 1 1 = some [0, 1, 0] := by
  refine decodeFunctionGpu_eq_input threeTokens _ _ (fun r hr layer channel => ?_) (by decide)
    (by decide) (by decide)
  obtain rfl : r = (0, 3) := mem_singleton.mp hr
  change (threeTokens.code (0, 3) 0 0).length ≤ 256
  decide +kernel

end QuantizedChunk

end CacheGenEncoder

end LMCache
