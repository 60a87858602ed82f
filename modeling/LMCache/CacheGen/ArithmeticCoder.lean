import Mathlib.Data.List.Basic

namespace LMCache

structure Cdf where
  values : List (BitVec 16)
  two_le : 2 ≤ values.length
  le_maxLp : values.length ≤ 48
  increasing : values.Pairwise (· < ·)
  starts : values[0]? = some 0

variable (cdf : Cdf)

namespace Cdf

def lp : ℕ := cdf.values.length

def maxSymbol : ℕ := cdf.lp - 2

def shared (i : ℕ) : BitVec 16 := cdf.values.getD i 0

def cLow (sym : ℕ) : BitVec 32 := (cdf.shared sym).setWidth 32

def cHigh (sym : ℕ) : BitVec 32 :=
  if sym = cdf.maxSymbol then 0x10000 else (cdf.shared (sym + 1)).setWidth 32

end Cdf

def acSpan (low high : BitVec 32) : BitVec 64 := high.setWidth 64 - low.setWidth 64 + 1

def acHigh (span : BitVec 64) (low cHigh : BitVec 32) : BitVec 32 :=
  ((low - 1).setWidth 64 + ((span * cHigh.setWidth 64) >>> 16)).setWidth 32

def acLow (span : BitVec 64) (low cLow : BitVec 32) : BitVec 32 :=
  (low.setWidth 64 + ((span * cLow.setWidth 64) >>> 16)).setWidth 32

structure BitWriter where
  outputReg : BitVec 32
  outputRegLen : ℕ
  outputShared : List (BitVec 8)
  outputRegLen_lt : outputRegLen < 32

namespace BitWriter

def empty : BitWriter := ⟨0, 0, [], Nat.succ_pos 31⟩

def spillRegToShared (outputReg : BitVec 32) (outputRegLen : ℕ) : List (BitVec 8) :=
  let outputReg := outputReg <<< (32 - outputRegLen)
  [(outputReg >>> 24).setWidth 8, ((outputReg >>> 16) &&& 0xFF).setWidth 8,
    ((outputReg >>> 8) &&& 0xFF).setWidth 8, (outputReg &&& 0xFF).setWidth 8]

def spillLoop : ℕ → BitVec 32 → ℕ → List (BitVec 8)
  | 0, _, _ => []
  | fuel + 1, outputReg, outputRegLen =>
      if outputRegLen = 0 then []
      else (outputReg >>> 24).setWidth 8 :: spillLoop fuel (outputReg <<< 8) (outputRegLen - 8)

def spillPartialRegToShared (w : BitWriter) : List (BitVec 8) :=
  w.outputShared ++ spillLoop w.outputRegLen (w.outputReg <<< (32 - w.outputRegLen)) w.outputRegLen

def addRound (w : BitWriter) (bit : BitVec 32) (remaining : ℕ)
    (h : remaining ≤ 32 - w.outputRegLen) : BitWriter :=
  let outputReg := (w.outputReg <<< remaining) ||| ((bit <<< remaining) - bit)
  if hfull : w.outputRegLen + remaining = 32 then
    ⟨outputReg, 0, w.outputShared ++ spillRegToShared outputReg 32, Nat.succ_pos 31⟩
  else
    ⟨outputReg, w.outputRegLen + remaining, w.outputShared,
      Nat.lt_of_le_of_ne (Nat.add_le_of_le_sub' (Nat.le_of_lt w.outputRegLen_lt) h) hfull⟩

def addBitsLoop (bit : BitVec 32) : ℕ → ℕ → BitWriter → BitWriter
  | 0, _, w => w
  | fuel + 1, num, w =>
      let remaining := min num (32 - w.outputRegLen)
      let next := w.addRound bit remaining (Nat.min_le_right _ _)
      if 0 < num - remaining then addBitsLoop bit fuel (num - remaining) next else next

def addBitsToOutput (w : BitWriter) (bit : BitVec 32) (num : ℕ) : BitWriter :=
  addBitsLoop bit (num + 1) num w

end BitWriter

structure AcEncoder where
  low : BitVec 32
  high : BitVec 32
  pendingBits : BitVec 64
  output : BitWriter

namespace AcEncoder

def init : AcEncoder := ⟨0, 0xFFFFFFFF, 0, .empty⟩

variable (s : AcEncoder)

def appendBitAndPending (bit : BitVec 32) : AcEncoder :=
  { s with
    output := (s.output.addBitsToOutput bit 1).addBitsToOutput (1 - bit)
      (s.pendingBits.setWidth 32).toInt.toNat
    pendingBits := 0 }

def shift : AcEncoder :=
  { s with low := s.low <<< 1, high := (s.high <<< 1) ||| 1 }

def renormalize : ℕ → AcEncoder → Option AcEncoder
  | 0, _ => none
  | fuel + 1, s =>
      if s.high < 0x80000000 then renormalize fuel (s.appendBitAndPending 0).shift
      else if 0x80000000 ≤ s.low then renormalize fuel (s.appendBitAndPending 1).shift
      else if 0x40000000 ≤ s.low ∧ s.high < 0xC0000000 then
        renormalize fuel
          { s with
            pendingBits := s.pendingBits + 1
            low := (s.low <<< 1) &&& 0x7FFFFFFF
            high := (s.high <<< 1) ||| 0x80000001 }
      else some s

def narrow (sym : BitVec 8) : AcEncoder :=
  let span := acSpan s.low s.high
  { s with
    high := acHigh span s.low (cdf.cHigh sym.toNat)
    low := acLow span s.low (cdf.cLow sym.toNat) }

def encodeLoop (fuel : ℕ) (cdf : Cdf) : List (BitVec 8) → AcEncoder → Option AcEncoder
  | [], s => some s
  | sym :: inputSym, s =>
      (renormalize fuel (s.narrow cdf sym)).bind (encodeLoop fuel cdf inputSym)

def finish : List (BitVec 8) :=
  let s := { s with pendingBits := s.pendingBits + 1 }
  let s := if s.low < 0x40000000 then s.appendBitAndPending 0 else s.appendBitAndPending 1
  s.output.spillPartialRegToShared

def encode (fuel : ℕ) (cdf : Cdf) (inputSym : List (BitVec 8)) : Option (List (BitVec 8)) :=
  (encodeLoop fuel cdf inputSym init).map finish

end AcEncoder

-- visited and quotients record low, high and value at the head of each turn of a loop and the
-- quotients before they are cut to 16 bits
structure AcDecoder where
  low : BitVec 32
  high : BitVec 32
  value : BitVec 32
  byteBuffer : BitVec 8
  bitIdx : ℕ
  byteBufferOffset : ℕ
  output : List (BitVec 8)
  visited : List (BitVec 32 × BitVec 32 × BitVec 32)
  quotients : List (BitVec 64)

def bytestreamsShared (bytes : List (BitVec 8)) (nextRow : ℕ → BitVec 8) (j : ℕ) : BitVec 8 :=
  if j < 256 then bytes.getD j 0 else nextRow (j - 256)

namespace AcDecoder

variable (bytestream : ℕ → BitVec 8)

def init : AcDecoder where
  low := 0
  high := 0xFFFFFFFF
  value := bytestream 0 ++ bytestream 1 ++ bytestream 2 ++ bytestream 3
  byteBuffer := bytestream 4
  bitIdx := 1
  byteBufferOffset := 4
  output := []
  visited := []
  quotients := []

variable (s : AcDecoder)

def visit : AcDecoder :=
  { s with visited := s.visited ++ [(s.low, s.high, s.value)] }

def readNextBit : AcDecoder :=
  { s with
    value := (s.value <<< 1) ||| ((s.byteBuffer >>> (8 - s.bitIdx)) &&& 1).setWidth 32
    bitIdx := s.bitIdx + 1 }

def checkAndUpdateByteBuffer : AcDecoder :=
  if s.bitIdx = 9 then
    { s with
      bitIdx := 1
      byteBufferOffset := s.byteBufferOffset + 1
      byteBuffer := bytestream (s.byteBufferOffset + 1) }
  else s

def binsearchLoop (cdf : Cdf) (target : BitVec 16) : ℕ → ℕ → ℕ → ℕ
  | 0, left, _ => left
  | fuel + 1, left, right =>
      if left + 1 < right then
        let m := (left + right) / 2
        let v := cdf.shared m
        if v < target then binsearchLoop cdf target fuel m right
        else if target < v then binsearchLoop cdf target fuel left m
        else m
      else left

def binsearch (target : BitVec 16) : ℕ :=
  binsearchLoop cdf target (cdf.maxSymbol + 1) 0 (cdf.maxSymbol + 1)

def renormalize : ℕ → AcDecoder → Option AcDecoder
  | 0, _ => none
  | fuel + 1, unvisited =>
      let s := unvisited.visit
      if 0x80000000 ≤ s.low ∨ s.high < 0x80000000 then
        renormalize fuel
          (checkAndUpdateByteBuffer bytestream
            (readNextBit { s with low := s.low <<< 1, high := (s.high <<< 1) ||| 1 }))
      else if 0x40000000 ≤ s.low ∧ s.high < 0xC0000000 then
        renormalize fuel
          (checkAndUpdateByteBuffer bytestream
            (readNextBit { s with
              low := (s.low <<< 1) &&& 0x7FFFFFFF
              high := (s.high <<< 1) ||| 0x80000001
              value := s.value - 0x40000000 }))
      else some s

def quotient : BitVec 64 :=
  ((s.value.setWidth 64 - s.low.setWidth 64 + 1) * 0x10000 - 1) / acSpan s.low s.high

def lookup : ℕ := binsearch cdf (s.quotient.setWidth 16)

def emit (sym : ℕ) : AcDecoder :=
  { s with
    output := s.output ++ [BitVec.ofNat 8 sym]
    quotients := s.quotients ++ [s.quotient] }

def narrow (sym : ℕ) : AcDecoder :=
  let span := acSpan s.low s.high
  { s with
    high := acHigh span s.low (cdf.cHigh sym)
    low := acLow span s.low (cdf.cLow sym) }

def decodeLoop (fuel : ℕ) (cdf : Cdf) : ℕ → AcDecoder → Option AcDecoder
  | 0, s => some s
  | n + 1, unvisited =>
      let s := unvisited.visit
      let sym := s.lookup cdf
      if n = 0 then some (s.emit sym)
      else
        (renormalize bytestream fuel ((s.emit sym).narrow cdf sym)).bind (decodeLoop fuel cdf n)

def decode (fuel : ℕ) (cdf : Cdf) (ntokens : ℕ) : Option AcDecoder :=
  decodeLoop bytestream fuel cdf ntokens (init bytestream)

end AcDecoder

end LMCache
