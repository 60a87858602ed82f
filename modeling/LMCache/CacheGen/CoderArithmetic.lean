import LMCache.CacheGen.ArithmeticCoder
import LMCache.Foundations.ArithmeticCode

namespace LMCache

open ArithmeticCode Nat

theorem toNat_acSpan {low high : BitVec 32} (h : low.toNat ≤ high.toNat) :
    (acSpan low high).toNat = high.toNat - low.toNat + 1 := by
  have hlow := low.isLt
  have hhigh := high.isLt
  rw [acSpan, BitVec.toNat_add, BitVec.toNat_sub, BitVec.toNat_setWidth, BitVec.toNat_setWidth]
  rw [show (1 : BitVec 64).toNat = 1 from rfl]
  omega

theorem toNat_mul_shift {span : BitVec 64} {c : BitVec 32} (hspan : span.toNat ≤ 2 ^ 32)
    (hc : c.toNat ≤ 2 ^ 16) :
    ((span * c.setWidth 64) >>> 16).toNat = span.toNat * c.toNat / 2 ^ 16 := by
  have hmul : span.toNat * c.toNat ≤ 2 ^ 32 * 2 ^ 16 := Nat.mul_le_mul hspan hc
  have hlt : c.toNat < 2 ^ 64 := hc.trans_lt (by decide)
  rw [BitVec.toNat_ushiftRight, BitVec.toNat_mul, BitVec.toNat_setWidth, mod_eq_of_lt hlt,
    mod_eq_of_lt (hmul.trans_lt (by decide)), shiftRight_eq_div_pow]

theorem div_le_span {span c : ℕ} (hc : c ≤ 2 ^ 16) : span * c / 2 ^ 16 ≤ span :=
  Nat.div_le_of_le_mul (by rw [Nat.mul_comm]; exact Nat.mul_le_mul_right span hc)

variable {low high c : BitVec 32}

theorem toNat_acLow (h : low.toNat ≤ high.toNat) (hc : c.toNat < 2 ^ 16) :
    (acLow (acSpan low high) low c).toNat =
      low.toNat + (high.toNat - low.toNat + 1) * c.toNat / 2 ^ 16 := by
  have hlow := low.isLt
  have hhigh := high.isLt
  have hspan := toNat_acSpan h
  have hlt : (high.toNat - low.toNat + 1) * c.toNat / 2 ^ 16 < high.toNat - low.toNat + 1 := by
    rw [div_lt_iff_lt_mul (by decide)]
    exact mul_lt_mul_of_pos_left hc (succ_pos _)
  rw [acLow, BitVec.toNat_setWidth, BitVec.toNat_add, BitVec.toNat_setWidth,
    toNat_mul_shift (by omega) hc.le, hspan]
  omega

theorem toNat_acHigh (h : low.toNat ≤ high.toNat) (hc : c.toNat ≤ 2 ^ 16)
    (hpos : 1 ≤ (high.toNat - low.toNat + 1) * c.toNat / 2 ^ 16) :
    (acHigh (acSpan low high) low c).toNat =
      low.toNat + (high.toNat - low.toNat + 1) * c.toNat / 2 ^ 16 - 1 := by
  have hlow := low.isLt
  have hhigh := high.isLt
  have hspan := toNat_acSpan h
  have hle : (high.toNat - low.toNat + 1) * c.toNat / 2 ^ 16 ≤ high.toNat - low.toNat + 1 :=
    div_le_span hc
  rw [acHigh, BitVec.toNat_setWidth, BitVec.toNat_add, BitVec.toNat_setWidth,
    toNat_mul_shift (by omega) hc, hspan, BitVec.toNat_sub]
  change ((2 ^ 32 - 1 % 2 ^ 32 + low.toNat) % 2 ^ 32 % 2 ^ 64 + _) % 2 ^ 64 % 2 ^ 32 = _
  omega

theorem or_eq_add {a b n : ℕ} (hb : b < 2 ^ n) : 2 ^ n * a ||| b = 2 ^ n * a + b := by
  rw [two_pow_add_eq_or_of_lt hb]

variable (x : BitVec 32)

theorem toNat_shift_one : (x <<< 1).toNat = 2 * x.toNat % 2 ^ 32 := by
  rw [BitVec.toNat_shiftLeft, shiftLeft_eq, mul_comm, pow_one]

theorem toNat_shift_or_bit {y : BitVec 32} (hy : y.toNat < 2) :
    ((x <<< 1) ||| y).toNat = 2 * x.toNat % 2 ^ 32 + y.toNat := by
  have heven : 2 * x.toNat % 2 ^ 32 = 2 ^ 1 * (x.toNat % 2 ^ 31) := by omega
  rw [BitVec.toNat_or, toNat_shift_one, heven]
  exact or_eq_add hy

theorem toNat_shift_or : ((x <<< 1) ||| 1).toNat = 2 * x.toNat % 2 ^ 32 + 1 :=
  toNat_shift_or_bit x (by decide)

theorem toNat_shift_and : ((x <<< 1) &&& 0x7FFFFFFF).toNat = 2 * x.toNat % 2 ^ 31 := by
  rw [BitVec.toNat_and, toNat_shift_one]
  change _ &&& (2 ^ 31 - 1) = _
  rw [and_two_pow_sub_one_eq_mod]
  omega

theorem or_two_pow {n x : ℕ} (h : x < 2 ^ (n + 1)) : x ||| 2 ^ n = 2 ^ n + x % 2 ^ n := by
  have hlow : x % 2 ^ n < 2 ^ n := Nat.mod_lt x (Nat.two_pow_pos n)
  have hhigh : x / 2 ^ n = 0 ∨ x / 2 ^ n = 1 :=
    le_one_iff_eq_zero_or_eq_one.mp
      (Nat.le_of_lt_succ (Nat.div_lt_of_lt_mul (by rwa [Nat.pow_succ] at h)))
  have hsplit : x = 2 ^ n * (x / 2 ^ n) ||| x % 2 ^ n := by
    rw [or_eq_add hlow, div_add_mod]
  have htop : 2 ^ n * (x / 2 ^ n) ||| 2 ^ n = 2 ^ n := by
    rcases hhigh with hzero | hone
    · rw [hzero, mul_zero, zero_or]
    · rw [hone, Nat.mul_one, Nat.or_self]
  calc x ||| 2 ^ n = (2 ^ n * (x / 2 ^ n) ||| x % 2 ^ n) ||| 2 ^ n := by rw [← hsplit]
    _ = (2 ^ n * (x / 2 ^ n) ||| 2 ^ n) ||| x % 2 ^ n := by
      rw [Nat.or_assoc, Nat.or_comm (x % 2 ^ n), ← Nat.or_assoc]
    _ = 2 ^ n * 1 ||| x % 2 ^ n := by rw [htop, mul_one]
    _ = 2 ^ n + x % 2 ^ n := by rw [or_eq_add hlow, mul_one]

theorem toNat_shift_or_msb :
    ((x <<< 1) ||| 0x80000001).toNat = 2 ^ 31 + 2 * x.toNat % 2 ^ 31 + 1 := by
  have hsplit : (0x80000001 : BitVec 32) = 1 ||| 0x80000000 := by decide
  have hlt := x.isLt
  rw [hsplit, ← BitVec.or_assoc, BitVec.toNat_or, toNat_shift_or]
  change (2 * x.toNat % 2 ^ 32 + 1) ||| 2 ^ 31 = _
  rw [or_two_pow (by omega)]
  omega

def Cdf.interval (cdf : Cdf) (sym : BitVec 8) : ℕ × ℕ :=
  ((cdf.cLow sym.toNat).toNat, (cdf.cHigh sym.toNat).toNat)

namespace Cdf

variable {cdf : Cdf} {i j : ℕ}

theorem shared_lt (hij : i < j) (hj : j < cdf.lp) : cdf.shared i < cdf.shared j := by
  have hi : i < cdf.values.length := hij.trans hj
  rw [shared, shared, List.getD_eq_getElem?_getD, List.getD_eq_getElem?_getD,
    List.getElem?_eq_getElem hi, List.getElem?_eq_getElem hj]
  exact List.pairwise_iff_getElem.mp cdf.increasing i j hi hj hij

theorem shared_zero (cdf : Cdf) : cdf.shared 0 = 0 := by
  rw [shared, List.getD_eq_getElem?_getD, cdf.starts, Option.getD_some]

theorem toNat_cLow (cdf : Cdf) (sym : ℕ) : (cdf.cLow sym).toNat = (cdf.shared sym).toNat := by
  have hlt := (cdf.shared sym).isLt
  rw [cLow, BitVec.toNat_setWidth, mod_eq_of_lt (hlt.trans (by decide))]

theorem toNat_cHigh (cdf : Cdf) (sym : ℕ) :
    (cdf.cHigh sym).toNat =
      if sym = cdf.maxSymbol then 2 ^ 16 else (cdf.shared (sym + 1)).toNat := by
  have hlt := (cdf.shared (sym + 1)).isLt
  rw [cHigh]
  split_ifs
  · rfl
  · rw [BitVec.toNat_setWidth, mod_eq_of_lt (hlt.trans (by decide))]

theorem cLow_lt (cdf : Cdf) (sym : ℕ) : (cdf.cLow sym).toNat < 2 ^ 16 := by
  rw [toNat_cLow]
  exact (cdf.shared sym).isLt

theorem valid (cdf : Cdf) (inputSym : List (BitVec 8))
    (h : ∀ sym ∈ inputSym, sym.toNat < cdf.lp - 1) : Valid (2 ^ 16) cdf.interval inputSym := by
  intro sym hsym
  have hlt := h sym hsym
  rw [interval, toNat_cHigh]
  split_ifs with hmax
  · exact ⟨cdf.cLow_lt sym.toNat, le_rfl⟩
  · rw [toNat_cLow]
    refine ⟨shared_lt (Nat.lt_succ_self _) ?_, (cdf.shared (sym.toNat + 1)).isLt.le⟩
    rw [maxSymbol] at hmax
    omega

def Holds (cdf : Cdf) (target : BitVec 16) (m : ℕ) : Prop :=
  m ≤ cdf.maxSymbol ∧ cdf.shared m ≤ target ∧ (m < cdf.maxSymbol → target < cdf.shared (m + 1))

variable {target : BitVec 16}

theorem Holds.unique (hi : cdf.Holds target i) (hj : cdf.Holds target j) : i = j := by
  have hle : ∀ {i j}, cdf.Holds target i → cdf.Holds target j → i ≤ j := by
    intro i j hi hj
    refine Nat.le_of_not_lt fun hlt => ?_
    have hnext := hj.2.2 (hlt.trans_le hi.1)
    have hlp := cdf.two_le
    have himax := hi.1
    rw [maxSymbol, lp] at himax
    have hmono : cdf.shared (j + 1) ≤ cdf.shared i := by
      rcases Nat.eq_or_lt_of_le (Nat.succ_le_of_lt hlt) with heq | hlt'
      · rw [← heq]
        exact BitVec.le_refl _
      · exact BitVec.le_of_lt (shared_lt hlt' (by rw [lp]; omega))
    exact absurd (BitVec.le_trans hmono hi.2.1) (BitVec.not_le.mpr hnext)
  exact le_antisymm (hle hi hj) (hle hj hi)

theorem holds_binsearchLoop {fuel left right : ℕ} (hlt : left < right)
    (hright : right ≤ cdf.maxSymbol + 1) (hleft : cdf.shared left ≤ target)
    (htarget : right ≤ cdf.maxSymbol → target < cdf.shared right) (hfuel : right ≤ left + fuel) :
    cdf.Holds target (AcDecoder.binsearchLoop cdf target fuel left right) := by
  induction fuel generalizing left right with
  | zero => omega
  | succ fuel ih =>
    rw [AcDecoder.binsearchLoop]
    split_ifs with hgap
    · dsimp only
      split_ifs with hbelow habove
      · exact ih (by omega) hright (BitVec.le_of_lt hbelow) htarget (by omega)
      · exact ih (by omega) (by omega) hleft (fun _ => habove) (by omega)
      · have heq : cdf.shared ((left + right) / 2) = target :=
          BitVec.le_antisymm (BitVec.not_lt.mp habove) (BitVec.not_lt.mp hbelow)
        refine ⟨by omega, heq ▸ BitVec.le_refl _, fun hmax => ?_⟩
        rw [← heq]
        have hlp := cdf.two_le
        rw [maxSymbol, lp] at hmax
        exact shared_lt (lt_succ_self _) (by rw [lp]; omega)
    · have heq : right = left + 1 := by omega
      rw [heq] at htarget
      exact ⟨by omega, hleft, htarget⟩

theorem holds_binsearch (cdf : Cdf) (target : BitVec 16) :
    cdf.Holds target (AcDecoder.binsearch cdf target) :=
  holds_binsearchLoop (succ_pos _) le_rfl (by rw [shared_zero]; exact zero_le target.toNat)
    (fun h => absurd h (not_succ_le_self _)) (le_add_left _ _)

theorem holds_of_interval {sym : BitVec 8} (hsym : sym.toNat < cdf.lp - 1)
    (h : (cdf.interval sym).1 ≤ target.toNat ∧ target.toNat < (cdf.interval sym).2) :
    cdf.Holds target sym.toNat := by
  obtain ⟨hlow, hhigh⟩ := h
  rw [interval, toNat_cLow] at hlow
  rw [interval, toNat_cHigh] at hhigh
  refine ⟨by rw [maxSymbol]; omega, hlow, fun hmax => ?_⟩
  rw [if_neg hmax.ne] at hhigh
  exact hhigh

end Cdf

namespace AcDecoder

theorem toNat_quotient {s : AcDecoder} (hlow : s.low.toNat ≤ s.value.toNat)
    (hhigh : s.value.toNat ≤ s.high.toNat) :
    s.quotient.toNat = count (2 ^ 16) s.low.toNat s.high.toNat s.value.toNat := by
  have hvalue := s.value.isLt
  have hdiff : (s.value.setWidth 64 - s.low.setWidth 64 + 1).toNat =
      s.value.toNat - s.low.toNat + 1 := toNat_acSpan hlow
  have hmul : ((s.value.setWidth 64 - s.low.setWidth 64 + 1) * 0x10000 : BitVec 64).toNat =
      (s.value.toNat - s.low.toNat + 1) * 2 ^ 16 := by
    rw [BitVec.toNat_mul, hdiff]
    exact mod_eq_of_lt (by change _ * 65536 < _; omega)
  rw [quotient, BitVec.toNat_udiv, toNat_acSpan (hlow.trans hhigh), BitVec.toNat_sub, hmul,
    ArithmeticCode.count]
  congr 1
  rw [show (1 : BitVec 64).toNat = 1 from rfl]
  omega

theorem lookup_eq {cdf : Cdf} {s : AcDecoder} {sym : BitVec 8} (hsym : sym.toNat < cdf.lp - 1)
    (hlow : s.low.toNat ≤ s.value.toNat) (hhigh : s.value.toNat ≤ s.high.toNat)
    (hpos : 1 ≤ (s.high.toNat - s.low.toNat + 1) * (cdf.interval sym).2 / 2 ^ 16)
    (h : narrowLow (2 ^ 16) (cdf.interval sym) s.low.toNat s.high.toNat ≤ s.value.toNat ∧
      s.value.toNat ≤ narrowHigh (2 ^ 16) (cdf.interval sym) s.low.toNat s.high.toNat) :
    s.quotient.toNat < 2 ^ 16 ∧ s.lookup cdf = sym.toNat := by
  have hlt : s.quotient.toNat < 2 ^ 16 := by
    rw [toNat_quotient hlow hhigh]
    exact count_lt (by decide) hhigh
  refine ⟨hlt, (cdf.holds_binsearch _).unique (Cdf.holds_of_interval hsym ?_)⟩
  rw [BitVec.toNat_setWidth, mod_eq_of_lt hlt, toNat_quotient hlow hhigh]
  exact (mem_narrow_iff (by decide) hlow hpos).mpr h

end AcDecoder

end LMCache
