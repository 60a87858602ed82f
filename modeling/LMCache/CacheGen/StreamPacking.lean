import LMCache.Foundations.Lists
import LMCache.Foundations.PackedRows
import Mathlib.Data.Nat.Bitwise

namespace LMCache

open List Nat

structure StreamBuffer where
  nlayers : ℕ
  nchannels : ℕ
  outputBufferSize : ℕ
  outputBuffer : ℕ → ℕ → ℕ → UInt8
  outputLengths : ℕ → ℕ → ℕ
  lengthsLe : ∀ layer channel, outputLengths layer channel ≤ outputBufferSize

def maxThreadPerBlock : ℕ := 128

def outputBufferLengthPerThread : ℕ := 256

def cachegenGpuMaxTokensPerChunk : ℕ := 256

def int32Max : ℕ := 2147483647

def toInt32 (n : ℤ) : ℤ := n.bmod (2 ^ 32)

def getBlockSize (nchannels : ℕ) : ℕ :=
  let factor := ((nchannels ^^^ (nchannels - 1)) + 1) >>> 1
  if maxThreadPerBlock < factor then maxThreadPerBlock else factor

namespace StreamBuffer

open PackedRows

variable (b : StreamBuffer)

def numStreams : ℕ := b.nlayers * b.nchannels

def flattenedLength (k : ℕ) : ℕ := b.outputLengths (k / b.nchannels) (k % b.nchannels)

def flattenedRow (k : ℕ) : List UInt8 :=
  (range b.outputBufferSize).map (b.outputBuffer (k / b.nchannels) (k % b.nchannels))

def flattenedLengths : List ℕ := (range b.numStreams).map b.flattenedLength

def flattenedBuffer : List UInt8 := (range b.numStreams).flatMap b.flattenedRow

def collectBytes : Option (List UInt8) :=
  let summedLength := shifted (b.flattenedLengths.map fun length => b.outputBufferSize - length)
  gather b.flattenedBuffer (addArange (repeatInterleave summedLength b.flattenedLengths))

def lengthPrefsum (layer channel : ℕ) : ℕ :=
  (cumsum b.flattenedLengths).getD (layer * b.nchannels + channel) 0

section Kernel

variable (bytestreams : List UInt8) (lengthsPrefix : ℕ → ℕ → ℕ) (blockSize gridY layer blockY : ℕ)

def sumLengthsShared (i : ℕ) : ℤ :=
  let nchannels := gridY * blockSize
  let gid : ℤ := layer * nchannels + blockY * blockSize + i - 1
  if 0 ≤ gid then toInt32 (lengthsPrefix (gid / nchannels).toNat (gid % nchannels).toNat) else 0

def bytestreamsShared (i j : ℕ) : UInt8 :=
  let startOffset := sumLengthsShared lengthsPrefix blockSize gridY layer blockY i
  let endOffset := sumLengthsShared lengthsPrefix blockSize gridY layer blockY (i + 1)
  if (j : ℤ) < endOffset - startOffset then bytestreams.getD (startOffset + j).toNat 0 else 0

def sharedRow (i : ℕ) : List UInt8 :=
  (range outputBufferLengthPerThread).map
    (bytestreamsShared bytestreams lengthsPrefix blockSize gridY layer blockY i)

end Kernel

def decodeCudaPrefsum (bytestreams : List UInt8) : Option (ℕ → ℕ → List UInt8) :=
  let blockSize := getBlockSize b.nchannels
  if b.nchannels % blockSize = 0 ∧ bytestreams.length ≤ int32Max ∧ b.numStreams ≤ int32Max then
    some fun layer channel => sharedRow bytestreams b.lengthPrefsum blockSize
      (b.nchannels / blockSize) layer (channel / blockSize) (channel % blockSize)
  else none

def stream (layer channel : ℕ) : List UInt8 :=
  (range (b.outputLengths layer channel)).map (b.outputBuffer layer channel)

def packed : List UInt8 :=
  (range b.nlayers).flatMap fun layer => (range b.nchannels).flatMap (b.stream layer)

end StreamBuffer

def encodeRanges (chunkSize : ℕ) : List (ℕ × ℕ) :=
  (range' 0 ((chunkSize + cachegenGpuMaxTokensPerChunk - 1) / cachegenGpuMaxTokensPerChunk)
    cachegenGpuMaxTokensPerChunk).map fun start =>
      (start, min (start + cachegenGpuMaxTokensPerChunk) chunkSize)

def decodeRanges : ℕ → List ℕ → List (ℕ × ℕ)
  | _, [] => []
  | start, ntokens :: rest => (start, start + ntokens) :: decodeRanges (start + ntokens) rest

def Tiles : ℕ → ℕ → List (ℕ × ℕ) → Prop
  | start, stop, [] => start = stop
  | start, stop, range :: rest => range.1 = start ∧ start < range.2 ∧ Tiles range.2 stop rest

theorem decodeRanges_of_tiles {start stop : ℕ} {ranges : List (ℕ × ℕ)} (h : Tiles start stop ranges) :
    decodeRanges start (ranges.map fun range => range.2 - range.1) = ranges := by
  induction ranges generalizing start with
  | nil => rfl
  | cons range ranges ih =>
    obtain ⟨rfl, hlt, hrest⟩ := h
    rw [map_cons, decodeRanges, Nat.add_sub_cancel' hlt.le, ih hrest]

theorem tiles_encodeRanges (chunkSize : ℕ) : Tiles 0 chunkSize (encodeRanges chunkSize) := by
  have hcut : ∀ count start, start ≤ chunkSize →
      (chunkSize - start + 255) / 256 = count →
        Tiles start chunkSize ((range' start count 256).map fun start =>
          (start, min (start + 256) chunkSize)) := by
    intro count
    induction count with
    | zero =>
      intro start hle hcount
      change start = chunkSize
      omega
    | succ count ih =>
      intro start hle hcount
      refine ⟨rfl, by dsimp only; omega, ?_⟩
      rcases lt_or_ge (start + 256) chunkSize with hmore | hlast
      · dsimp only
        rw [min_eq_left hmore.le]
        exact ih (start + 256) hmore.le (by omega)
      · have hzero : count = 0 := by omega
        subst hzero
        exact min_eq_right hlast
  exact hcut _ 0 (zero_le _) rfl

theorem exists_lowest_bit {n : ℕ} (h : 0 < n) :
    ∃ k, 2 ^ k ∣ n ∧ n ^^^ (n - 1) = 2 ^ (k + 1) - 1 := by
  induction n using Nat.strong_induction_on with
  | _ n ih =>
    rcases even_or_odd' n with ⟨m, rfl | rfl⟩
    · obtain ⟨k, hdvd, hxor⟩ := ih m (by omega) (by omega)
      refine ⟨k + 1, ?_, ?_⟩
      · rw [pow_succ, mul_comm]
        exact mul_dvd_mul_left 2 hdvd
      · have hhalf : (2 * m ^^^ (2 * m - 1)) / 2 = m ^^^ (m - 1) := by
          rw [xor_div_two]
          congr 1 <;> omega
        have hodd : (2 * m ^^^ (2 * m - 1)) % 2 = 1 := by
          rw [xor_mod_two_eq]
          omega
        have hpow : 2 ^ (k + 1 + 1) = 2 * 2 ^ (k + 1) := pow_succ'
        have hpos : 0 < 2 ^ (k + 1) := Nat.two_pow_pos _
        omega
    · refine ⟨0, by simp, ?_⟩
      have hhalf : ((2 * m + 1) ^^^ (2 * m)) / 2 = 0 := by
        rw [Nat.xor_div_two, show (2 * m + 1) / 2 = 2 * m / 2 by omega, Nat.xor_self]
      have hodd : ((2 * m + 1) ^^^ (2 * m)) % 2 = 1 := by
        rw [xor_mod_two_eq]
        omega
      rw [Nat.add_sub_cancel]
      omega

theorem getBlockSize_dvd {nchannels : ℕ} (h : 0 < nchannels) :
    getBlockSize nchannels ∣ nchannels ∧ 0 < getBlockSize nchannels := by
  obtain ⟨k, hdvd, hxor⟩ := exists_lowest_bit h
  have hfactor : ((nchannels ^^^ (nchannels - 1)) + 1) >>> 1 = 2 ^ k := by
    rw [hxor, Nat.sub_add_cancel (Nat.two_pow_pos _), Nat.shiftRight_one, Nat.pow_succ,
      Nat.mul_div_cancel _ Nat.two_pos]
  rw [getBlockSize, hfactor]
  split_ifs with hlarge
  · refine ⟨dvd_trans ?_ hdvd, succ_pos 127⟩
    have hseven : 2 ^ 7 < 2 ^ k := hlarge
    exact Nat.pow_dvd_pow 2 ((Nat.pow_lt_pow_iff_right Nat.one_lt_two).mp hseven).le
  · exact ⟨hdvd, Nat.two_pow_pos k⟩

namespace StreamBuffer

open PackedRows

variable (b : StreamBuffer)

structure Unpacks (ntokens : ℕ) : Prop where
  packs : b.collectBytes = some b.packed
  accepts : b.packed.length ≤ int32Max → b.numStreams ≤ int32Max →
    (b.decodeCudaPrefsum b.packed).isSome
  slices : ∀ rows, b.decodeCudaPrefsum b.packed = some rows → ∀ layer < b.nlayers,
    ∀ channel < b.nchannels, ∃ pad, rows layer channel =
      b.stream layer channel ++ replicate pad 0
  tiles : Tiles 0 ntokens (encodeRanges ntokens)
  follows : decodeRanges 0 ((encodeRanges ntokens).map fun range => range.2 - range.1) =
    encodeRanges ntokens

def flattenedStream (k : ℕ) : List UInt8 := b.stream (k / b.nchannels) (k % b.nchannels)

theorem length_flattenedStream (k : ℕ) : (b.flattenedStream k).length = b.flattenedLength k := by
  rw [flattenedStream, stream, length_map, length_range, flattenedLength]

theorem flattened_position {nchannels channel : ℕ} (layer : ℕ) (h : channel < nchannels) :
    (layer * nchannels + channel) / nchannels = layer ∧
      (layer * nchannels + channel) % nchannels = channel := by
  rw [add_comm, mul_comm]
  refine ⟨?_, ?_⟩
  · rw [add_mul_div_left _ _ (zero_lt_of_lt h), div_eq_of_lt h, zero_add]
  · rw [add_mul_mod_self_left, mod_eq_of_lt h]

theorem packed_eq : b.packed = (range b.numStreams).flatMap b.flattenedStream := by
  have hlayers : ∀ nlayers, ((range nlayers).flatMap fun layer =>
      (range b.nchannels).flatMap (b.stream layer)) =
        (range (nlayers * b.nchannels)).flatMap b.flattenedStream := by
    intro nlayers
    induction nlayers with
    | zero => simp
    | succ nlayers ih =>
      rw [range_succ, flatMap_append, ih, succ_mul, range_add,
        flatMap_append, flatMap_singleton, flatMap_map]
      congr 1
      refine flatMap_congr fun channel hchannel => ?_
      obtain ⟨hdiv, hmod⟩ := flattened_position nlayers (mem_range.mp hchannel)
      rw [flattenedStream, hdiv, hmod]
  exact hlayers b.nlayers

theorem getElem?_flattenedBuffer {k j : ℕ} (hk : k < b.numStreams) (hj : j < b.flattenedLength k) :
    b.flattenedBuffer[k * b.outputBufferSize + j]? = (b.flattenedStream k)[j]? := by
  have hle : j < b.outputBufferSize := hj.trans_le (b.lengthsLe _ _)
  rw [flattenedBuffer, Columns.getElem?_flatMap_width
    (fun k _ => by simp [flattenedRow]) hle, getElem?_range hk]
  simp only [Option.bind_some, flattenedRow, flattenedStream, stream, getElem?_map,
    getElem?_range hle]
  exact congrArg _ (getElem?_range hj).symm

theorem collectBytes_eq : b.collectBytes = some b.packed := by
  have hgap : ∀ k < b.numStreams,
      b.outputBufferSize - b.flattenedLength k + b.flattenedLength k = b.outputBufferSize :=
    fun k _ => Nat.sub_add_cancel (b.lengthsLe _ _)
  rw [collectBytes, flattenedLengths, map_map]
  simp only [Function.comp_def]
  rw [shifted_map_range, repeatInterleave_map_range, addArange_rows hgap le_rfl]
  have hread : ∀ i ∈ (range b.numStreams).flatMap fun k =>
      (range (b.flattenedLength k)).map fun j => k * b.outputBufferSize + j,
        b.flattenedBuffer[i]? = some (b.flattenedBuffer.getD i 0) := by
    intro i hi
    obtain ⟨k, hk, hi⟩ := mem_flatMap.mp hi
    obtain ⟨j, hj, rfl⟩ := mem_map.mp hi
    rw [mem_range] at hk hj
    rw [getD_eq_getElem?_getD, b.getElem?_flattenedBuffer hk hj, getElem?_eq_getElem
      (by rwa [length_flattenedStream]), Option.getD_some]
  rw [gather_eq hread, packed_eq, map_flatMap]
  congr 1
  refine flatMap_congr fun k hk => ?_
  rw [mem_range] at hk
  refine ext_getElem? fun j => ?_
  rw [map_map, getElem?_map]
  rcases lt_or_ge j (b.flattenedLength k) with hj | hj
  · rw [getElem?_range hj, Option.map_some, Function.comp_apply, getD_eq_getElem?_getD,
      b.getElem?_flattenedBuffer hk hj, getElem?_eq_getElem (by rwa [length_flattenedStream]),
      Option.getD_some]
  · rw [getElem?_eq_none (by simpa using hj), getElem?_eq_none
      (by rwa [length_flattenedStream]), Option.map_none]

theorem lengthPrefsum_eq {layer channel : ℕ} (h : layer * b.nchannels + channel < b.numStreams) :
    b.lengthPrefsum layer channel =
      before b.flattenedLength (layer * b.nchannels + channel + 1) := by
  rw [lengthPrefsum, flattenedLengths, getD_eq_getElem?_getD, getElem?_cumsum _ h, Option.getD_some]

theorem length_packed : b.packed.length = before b.flattenedLength b.numStreams := by
  rw [packed_eq, length_flatMap_range b.length_flattenedStream]

theorem toInt32_eq {n : ℕ} (h : n ≤ int32Max) : toInt32 n = n := by
  rw [int32Max] at h
  exact Int.bmod_eq_of_le (by omega) (by omega)

theorem sumLengthsShared_eq {blockSize gridY layer blockY i : ℕ} (hgrid : gridY * blockSize = b.nchannels)
    (hpacked : b.packed.length ≤ int32Max)
    (hk : layer * b.nchannels + blockY * blockSize + i ≤ b.numStreams) :
    sumLengthsShared b.lengthPrefsum blockSize gridY layer blockY i =
      before b.flattenedLength (layer * b.nchannels + blockY * blockSize + i) := by
  generalize hplace : layer * b.nchannels + blockY * blockSize + i = k at hk ⊢
  have hcast : (layer : ℤ) * ((b.nchannels : ℕ) : ℤ) + blockY * blockSize + i = (k : ℤ) := by
    rw [← hplace]
    push_cast
    rfl
  rw [sumLengthsShared, hgrid, hcast]
  cases k with
  | zero => rw [if_neg (by decide)]; rfl
  | succ k =>
    have hgid : ((k + 1 : ℕ) : ℤ) - 1 = (k : ℤ) := by push_cast; omega
    rw [hgid, if_pos (Int.natCast_nonneg k), ← Int.natCast_ediv, ← Int.natCast_emod, Int.toNat_natCast,
      Int.toNat_natCast, lengthPrefsum_eq]
    · rw [div_add_mod']
      exact toInt32_eq ((before_mono _ hk).trans (b.length_packed ▸ hpacked))
    · rw [div_add_mod']
      exact hk

variable {rows : ℕ → ℕ → List UInt8}

theorem rows_eq (h : b.decodeCudaPrefsum b.packed = some rows) :
    b.packed.length ≤ int32Max ∧ rows = fun layer channel => sharedRow b.packed b.lengthPrefsum
      (getBlockSize b.nchannels) (b.nchannels / getBlockSize b.nchannels) layer
        (channel / getBlockSize b.nchannels) (channel % getBlockSize b.nchannels) := by
  rw [decodeCudaPrefsum] at h
  split_ifs at h with hchecks
  exact ⟨hchecks.2.1, (Option.some.inj h).symm⟩

theorem slice_eq {layer channel : ℕ} (hrows : b.decodeCudaPrefsum b.packed = some rows)
    (hlayer : layer < b.nlayers) (hchannel : channel < b.nchannels)
    (hfits : b.outputLengths layer channel ≤ outputBufferLengthPerThread) :
    rows layer channel = b.stream layer channel ++
      replicate (outputBufferLengthPerThread - b.outputLengths layer channel) 0 := by
  obtain ⟨hpacked, rfl⟩ := b.rows_eq hrows
  obtain ⟨hdvd, _⟩ := getBlockSize_dvd (zero_lt_of_lt hchannel)
  have hgrid := Nat.div_mul_cancel hdvd
  have hplace := div_add_mod' channel (getBlockSize b.nchannels)
  have hk : layer * b.nchannels + channel < b.numStreams := by
    have hle := mul_le_mul_right b.nchannels (succ_le_of_lt hlayer)
    rw [succ_mul] at hle
    exact (Nat.add_lt_add_left hchannel _).trans_le hle
  obtain ⟨hdiv, hmod⟩ := flattened_position layer hchannel
  have hlength : b.flattenedLength (layer * b.nchannels + channel) =
      b.outputLengths layer channel := by rw [flattenedLength, hdiv, hmod]
  have hstream : b.flattenedStream (layer * b.nchannels + channel) = b.stream layer channel := by
    rw [flattenedStream, hdiv, hmod]
  have hstart := b.sumLengthsShared_eq (i := channel % getBlockSize b.nchannels) hgrid hpacked
    (by rw [add_assoc, hplace]; exact hk.le)
  have hstop := b.sumLengthsShared_eq (i := channel % getBlockSize b.nchannels + 1) hgrid hpacked
    (by rw [← add_assoc, add_assoc _ _ (channel % _), hplace]; exact hk)
  rw [add_assoc, hplace] at hstart
  rw [← add_assoc, add_assoc _ _ (channel % _), hplace, before_succ, hlength] at hstop
  refine ext_getElem? fun j => ?_
  have hlen : (b.stream layer channel).length = b.outputLengths layer channel := by
    rw [stream, length_map, length_range]
  simp only [sharedRow]
  rw [getElem?_map]
  rcases lt_or_ge j outputBufferLengthPerThread with hj | hj
  · rw [getElem?_range hj, Option.map_some, bytestreamsShared, hstart, hstop]
    rcases lt_or_ge j (b.outputLengths layer channel) with hused | hpad
    · have hget := getElem?_flatMap_before b.length_flattenedStream hk (hlength ▸ hused)
      rw [← packed_eq, hstream] at hget
      rw [if_pos (by push_cast; omega), ← Int.natCast_add, Int.toNat_natCast,
        getD_eq_getElem?_getD, hget, getElem?_append_left (by omega),
        getElem?_eq_getElem (by omega), Option.getD_some]
    · rw [if_neg (by push_cast; omega), getElem?_append_right (by omega),
        getElem?_replicate, if_pos (by omega)]
  · rw [getElem?_eq_none (by simpa using hj), Option.map_none, getElem?_eq_none]
    rw [length_append, length_replicate, hlen]
    omega

theorem unpacks (hchannels : 0 < b.nchannels)
    (hrow : b.outputBufferSize ≤ outputBufferLengthPerThread) (ntokens : ℕ) :
    b.Unpacks ntokens where
  packs := b.collectBytes_eq
  accepts hpacked hstreams := by
    rw [decodeCudaPrefsum, if_pos ⟨mod_eq_zero_of_dvd (getBlockSize_dvd hchannels).1, hpacked,
      hstreams⟩]
    rfl
  slices rows hrows layer hlayer channel hchannel :=
    ⟨_, b.slice_eq hrows hlayer hchannel ((b.lengthsLe layer channel).trans hrow)⟩
  tiles := tiles_encodeRanges ntokens
  follows := decodeRanges_of_tiles (tiles_encodeRanges ntokens)

def fullRow (outputBufferSize : ℕ) : StreamBuffer where
  nlayers := 1
  nchannels := 1
  outputBufferSize := outputBufferSize
  outputBuffer := fun _ _ _ => 1
  outputLengths := fun _ _ => outputBufferSize
  lengthsLe := fun _ _ => le_rfl

theorem unpacks_fullRow : (fullRow 256).Unpacks 1 :=
  (fullRow 256).unpacks one_pos le_rfl 1

theorem not_unpacks_fullRow :
    ¬ ∀ (b : StreamBuffer) (ntokens : ℕ), 0 < b.nlayers → 0 < b.nchannels → 0 < ntokens →
      b.Unpacks ntokens := by
  intro h
  have hunpacks := h (fullRow 257) 1 one_pos one_pos one_pos
  have hpacked : (fullRow 257).packed.length ≤ int32Max := by
    rw [length_packed]
    decide
  obtain ⟨rows, hrows⟩ := Option.isSome_iff_exists.mp (hunpacks.accepts hpacked (by decide))
  obtain ⟨pad, hslice⟩ := hunpacks.slices rows hrows 0 one_pos 0 one_pos
  obtain ⟨_, rfl⟩ := (fullRow 257).rows_eq hrows
  have hlen := congrArg length hslice
  simp only [sharedRow, stream, length_append, length_map, length_range,
    outputBufferLengthPerThread, fullRow] at hlen
  omega

end StreamBuffer

end LMCache
