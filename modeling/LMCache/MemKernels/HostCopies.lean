import LMCache.Foundations.Offsets
import LMCache.Foundations.Region

namespace LMCache.MemKernels

def addSize (a b : ℕ) : ℕ := (a + b) % 2 ^ 64

def subSize (a b : ℕ) : ℕ := (2 ^ 64 + a - b) % 2 ^ 64

theorem addSize_of_lt {a b : ℕ} (h : a + b < 2 ^ 64) : addSize a b = a + b := Nat.mod_eq_of_lt h

theorem subSize_of_le {a b : ℕ} (hle : b ≤ a) (ha : a < 2 ^ 64) : subSize a b = a - b := by
  rw [subSize, Nat.add_sub_assoc hle, Nat.add_mod_left, Nat.mod_eq_of_lt (by omega)]

inductive TransferDirection where
  | h2d
  | d2h
deriving DecidableEq

inductive MemcpyError where
  | torchCheck (message : String)
  | outOfFuel
deriving DecidableEq

structure MemcpyCall where
  dest : ℕ
  src : ℕ
  nbytes : ℕ
  kind : TransferDirection
deriving DecidableEq

structure HostCopy where
  dest : ℕ
  src : ℕ
  nbytes : ℕ
  direction : TransferDirection
  hostBufferOffset : ℕ
  hostBufferAlignments : ℕ

namespace HostCopy

variable (c : HostCopy)

def maxNbytes (offset : ℕ) : ℕ :=
  let mask := subSize c.hostBufferAlignments 1
  let alignedAreaEnd :=
    addSize (Nat.ldiff (addSize offset c.hostBufferOffset) mask) c.hostBufferAlignments
  let realEnd := min (addSize c.hostBufferOffset c.nbytes) alignedAreaEnd
  subSize (subSize realEnd offset) c.hostBufferOffset

def call (piece : Region) : MemcpyCall where
  dest := addSize c.dest piece.start
  src := addSize c.src piece.start
  nbytes := piece.size
  kind := c.direction

def copyLoop (c : HostCopy) : (fuel offset : ℕ) → Except MemcpyError (List MemcpyCall)
  | 0, offset => if offset < c.nbytes then .error .outOfFuel else .ok []
  | fuel + 1, offset =>
      if offset < c.nbytes then
        let maxNbytes := c.maxNbytes offset
        (copyLoop c fuel (addSize offset maxNbytes)).map (c.call ⟨offset, maxNbytes⟩ :: ·)
      else .ok []

def lmcacheMemcpyAsync (fuel : ℕ) : Except MemcpyError (List MemcpyCall) :=
  if c.hostBufferAlignments &&& subSize c.hostBufferAlignments 1 = 0 then c.copyLoop fuel 0
  else .error (.torchCheck "host_buffer_alignments must be power of two")

def Consecutive (first last : ℕ) : List Region → Prop
  | [] => first = last
  | piece :: pieces => piece.start = first ∧ 0 < piece.size ∧ Consecutive piece.stop last pieces

def Crosses (piece : Region) : Prop :=
  ∃ m, c.hostBufferAlignments ∣ m ∧ c.hostBufferOffset + piece.start < m ∧
    m < c.hostBufferOffset + piece.stop

variable {c : HostCopy} {k : ℕ}

theorem maxNbytes_eq (halign : c.hostBufferAlignments = 2 ^ k)
    (hfits : c.hostBufferOffset + c.nbytes + c.hostBufferAlignments < 2 ^ 64) {offset : ℕ}
    (hlt : offset < c.nbytes) :
    c.maxNbytes offset = min (c.hostBufferOffset + c.nbytes)
      (2 ^ k * ((offset + c.hostBufferOffset) / 2 ^ k) + 2 ^ k) - offset - c.hostBufferOffset := by
  have hpos : 0 < 2 ^ k := Nat.two_pow_pos k
  have hbelow := Nat.mul_div_le (offset + c.hostBufferOffset) (2 ^ k)
  have hnext := Nat.lt_mul_div_succ (offset + c.hostBufferOffset) hpos
  rw [Nat.mul_succ] at hnext
  rw [halign] at hfits
  have hstart : addSize offset c.hostBufferOffset = offset + c.hostBufferOffset :=
    addSize_of_lt (by omega)
  have hstop : addSize c.hostBufferOffset c.nbytes = c.hostBufferOffset + c.nbytes :=
    addSize_of_lt (by omega)
  rw [maxNbytes, halign, subSize_of_le hpos (by omega), hstart, hstop, Alignment.ldiff_low_bits,
    addSize_of_lt (by omega), subSize_of_le (a := min _ _) (by omega) (by omega),
    subSize_of_le (by omega) (by omega)]

theorem maxNbytes_step (halign : c.hostBufferAlignments = 2 ^ k)
    (hfits : c.hostBufferOffset + c.nbytes + c.hostBufferAlignments < 2 ^ 64) {offset : ℕ}
    (hlt : offset < c.nbytes) :
    0 < c.maxNbytes offset ∧ offset + c.maxNbytes offset ≤ c.nbytes ∧
      ¬ c.Crosses ⟨offset, c.maxNbytes offset⟩ := by
  have hnext := Nat.lt_mul_div_succ (offset + c.hostBufferOffset) (Nat.two_pow_pos k)
  rw [Nat.mul_succ] at hnext
  rw [maxNbytes_eq halign hfits hlt]
  refine ⟨by omega, by omega, ?_⟩
  rintro ⟨m, ⟨j, rfl⟩, hbefore, hafter⟩
  rw [halign] at hbefore hafter
  have hchunk : (offset + c.hostBufferOffset) / 2 ^ k < j :=
    Nat.div_lt_of_lt_mul (by simpa [Nat.add_comm] using hbefore)
  have hmul := Nat.mul_le_mul_left (2 ^ k) hchunk
  rw [Nat.mul_succ] at hmul
  simp only [Region.stop] at hafter
  omega

theorem copyLoop_spec (halign : c.hostBufferAlignments = 2 ^ k)
    (hfits : c.hostBufferOffset + c.nbytes + c.hostBufferAlignments < 2 ^ 64) {fuel offset : ℕ}
    (hle : offset ≤ c.nbytes) (hfuel : c.nbytes - offset ≤ fuel) :
    ∃ pieces : List Region, c.copyLoop fuel offset = .ok (pieces.map c.call) ∧
      Consecutive offset c.nbytes pieces ∧ ∀ piece ∈ pieces, ¬ c.Crosses piece := by
  induction fuel generalizing offset with
  | zero => exact ⟨[], if_neg (by omega), by simp [Consecutive]; omega, by simp⟩
  | succ fuel ih =>
    by_cases hlt : offset < c.nbytes
    · obtain ⟨hpos, hend, hcut⟩ := maxNbytes_step halign hfits hlt
      have hnext : addSize offset (c.maxNbytes offset) = offset + c.maxNbytes offset :=
        addSize_of_lt (by omega)
      obtain ⟨pieces, hloop, hcons, hcuts⟩ := ih hend (by omega)
      refine ⟨⟨offset, c.maxNbytes offset⟩ :: pieces, ?_, ⟨rfl, hpos, hcons⟩, ?_⟩
      · simp only [copyLoop, if_pos hlt, hnext, hloop]
        rfl
      · simpa [hcut] using hcuts
    · exact ⟨[], if_neg hlt, by simp [Consecutive]; omega, by simp⟩

theorem lmcacheMemcpyAsync_cut (c : HostCopy) (k : ℕ) (halign : c.hostBufferAlignments = 2 ^ k)
    (hfits : c.hostBufferOffset + c.nbytes + c.hostBufferAlignments < 2 ^ 64) :
    ∃ pieces : List Region, c.lmcacheMemcpyAsync c.nbytes = .ok (pieces.map c.call) ∧
      Consecutive 0 c.nbytes pieces ∧ ∀ piece ∈ pieces, ¬ c.Crosses piece := by
  have hpower : c.hostBufferAlignments &&& subSize c.hostBufferAlignments 1 = 0 := by
    rw [subSize_of_le (by rw [halign]; exact Nat.two_pow_pos k) (by omega), halign,
      Nat.and_two_pow_sub_one_eq_mod, Nat.mod_self]
  rw [lmcacheMemcpyAsync, if_pos hpower]
  exact copyLoop_spec halign hfits (Nat.zero_le _) (by omega)

theorem lmcacheMemcpyAsync_cut_threeChunks :
    ∃ pieces : List Region,
      HostCopy.lmcacheMemcpyAsync ⟨4096, 65536, 20, .h2d, 5, 8⟩ 20 =
        .ok (pieces.map (HostCopy.call ⟨4096, 65536, 20, .h2d, 5, 8⟩)) ∧
      Consecutive 0 20 pieces ∧ ∀ piece ∈ pieces, ¬ HostCopy.Crosses ⟨4096, 65536, 20, .h2d, 5, 8⟩ piece :=
  lmcacheMemcpyAsync_cut ⟨4096, 65536, 20, .h2d, 5, 8⟩ 3 rfl (by decide)

end HostCopy

end LMCache.MemKernels
