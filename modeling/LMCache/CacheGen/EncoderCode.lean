import LMCache.CacheGen.CoderArithmetic

namespace LMCache

open List

def lowBits {w : ℕ} (x : BitVec w) : ℕ → List Bool
  | 0 => []
  | n + 1 => x.getLsbD n :: lowBits x n

def bytesBits (bytes : List (BitVec 8)) : List Bool := bytes.flatMap (fun b => lowBits b 8)

section LowBits

variable {w : ℕ} {x : BitVec v} {y : BitVec w}

theorem length_lowBits (x : BitVec w) (n : ℕ) : (lowBits x n).length = n := by
  induction n with
  | zero => rfl
  | succ n ih => rw [lowBits, length_cons, ih]

theorem lowBits_congr {n : ℕ} (h : ∀ i < n, x.getLsbD i = y.getLsbD i) :
    lowBits x n = lowBits y n := by
  induction n with
  | zero => rfl
  | succ n ih => rw [lowBits, lowBits, h n (Nat.lt_succ_self n), ih fun i hi => h i (by omega)]

theorem lowBits_of_low {n r : ℕ} {b : Bool} (hlow : ∀ i < r, y.getLsbD i = b)
    (hhigh : ∀ i < n, y.getLsbD (i + r) = x.getLsbD i) :
    lowBits y (n + r) = lowBits x n ++ replicate r b := by
  induction n with
  | zero =>
    rw [Nat.zero_add, lowBits, nil_append]
    clear hhigh
    induction r with
    | zero => rfl
    | succ r ih =>
      rw [lowBits, replicate_succ, hlow r (Nat.lt_succ_self r), ih fun i hi => hlow i (by omega)]
  | succ n ih =>
    rw [Nat.succ_add, lowBits, lowBits, hhigh n (Nat.lt_succ_self n),
      ih fun i hi => hhigh i (by omega), cons_append]

theorem lowBits_split (x : BitVec w) (m k : ℕ) :
    lowBits x (m + k) = lowBits (x >>> k) m ++ lowBits x k := by
  induction m with
  | zero => rw [Nat.zero_add, lowBits, nil_append]
  | succ m ih =>
    rw [Nat.succ_add, lowBits, lowBits, ih, cons_append, BitVec.getLsbD_ushiftRight, Nat.add_comm k]

theorem lowBits_shiftLeft {n r : ℕ} (x : BitVec w) (h : n + r ≤ w) :
    lowBits (x <<< r) (n + r) = lowBits x n ++ replicate r false := by
  refine lowBits_of_low (fun i hi => ?_) fun i hi => ?_
  · rw [BitVec.getLsbD_shiftLeft]
    simp [hi]
  · rw [BitVec.getLsbD_shiftLeft, Nat.add_sub_cancel]
    simp [show i + r < w by omega]

end LowBits

theorem bytesBits_append (xs ys : List (BitVec 8)) :
    bytesBits (xs ++ ys) = bytesBits xs ++ bytesBits ys := flatMap_append

theorem lowBits_byte (x : BitVec 32) : lowBits (x.setWidth 8) 8 = lowBits x 8 := by
  refine lowBits_congr fun i hi => ?_
  rw [BitVec.getLsbD_setWidth]
  simp [hi]

theorem lowBits_masked (x : BitVec 32) : lowBits (x &&& 0xFF) 8 = lowBits x 8 := by
  refine lowBits_congr fun i hi => ?_
  have hmask : ∀ i < 8, (0xFF : BitVec 32).getLsbD i = true := by decide
  rw [BitVec.getLsbD_and, hmask i hi, Bool.and_true]

namespace BitWriter

theorem bytesBits_spillRegToShared (x : BitVec 32) :
    bytesBits (spillRegToShared x 32) = lowBits x 32 := by
  have hshift : x <<< (32 - 32) = x := BitVec.shiftLeft_zero x
  have h24 := lowBits_split x 8 24
  have h16 := lowBits_split x 8 16
  have h8 := lowBits_split x 8 8
  rw [spillRegToShared, hshift]
  simp only [bytesBits, flatMap_cons, flatMap_nil, append_nil, lowBits_byte, lowBits_masked]
  rw [h24, h16, h8]

def bits (w : BitWriter) : List Bool :=
  bytesBits w.outputShared ++ lowBits w.outputReg w.outputRegLen

def word (b : Bool) : BitVec 32 := if b then 1 else 0

theorem toNat_ones {r : ℕ} (hr : r ≤ 32) : (((1 : BitVec 32) <<< r) - 1).toNat = 2 ^ r - 1 := by
  have hpow : 2 ^ r ≤ 2 ^ 32 := Nat.pow_le_pow_right (by decide) hr
  have hpos := Nat.two_pow_pos r
  rw [BitVec.toNat_sub, BitVec.toNat_shiftLeft, Nat.shiftLeft_eq]
  change (2 ^ 32 - 1 + 1 * 2 ^ r % 2 ^ 32) % 2 ^ 32 = _
  rw [Nat.one_mul]
  rcases Nat.eq_or_lt_of_le hpow with heq | hlt
  · rw [heq]
    rfl
  · rw [Nat.mod_eq_of_lt hlt]
    omega

theorem getLsbD_ones (b : Bool) {r i : ℕ} (hr : r ≤ 32) :
    ((word b <<< r) - word b).getLsbD i = (decide (i < r) && b) := by
  cases b with
  | false => simp [word]
  | true =>
    rw [Bool.and_true, BitVec.getLsbD, show word true = 1 from rfl, toNat_ones hr,
      Nat.testBit_two_pow_sub_one]

variable {w : BitWriter} {b : Bool}

theorem bits_addRound {r : ℕ} (h : r ≤ 32 - w.outputRegLen) :
    (w.addRound (word b) r h).bits = w.bits ++ replicate r b := by
  have hlen := w.outputRegLen_lt
  have hreg : lowBits ((w.outputReg <<< r) ||| ((word b <<< r) - word b)) (w.outputRegLen + r) =
      lowBits w.outputReg w.outputRegLen ++ replicate r b := by
    refine lowBits_of_low (fun i hi => ?_) fun i hi => ?_
    · rw [BitVec.getLsbD_or, getLsbD_ones b (by omega), BitVec.getLsbD_shiftLeft]
      simp [hi]
    · rw [BitVec.getLsbD_or, getLsbD_ones b (by omega),
        BitVec.getLsbD_shiftLeft, Nat.add_sub_cancel]
      simp [show i + r < 32 by omega]
  rw [addRound]
  split_ifs with hfull
  · rw [hfull] at hreg
    rw [bits, bits, bytesBits_append, bytesBits_spillRegToShared, lowBits, append_nil, hreg,
      append_assoc]
  · rw [bits, bits, hreg, append_assoc]

theorem bits_addBitsLoop {fuel num : ℕ} (h : num < fuel) (w : BitWriter) :
    (addBitsLoop (word b) fuel num w).bits = w.bits ++ replicate num b := by
  induction fuel generalizing num w with
  | zero => omega
  | succ fuel ih =>
    have hlen := w.outputRegLen_lt
    rw [addBitsLoop]
    split_ifs with hmore
    · rw [ih (by omega), bits_addRound, append_assoc, replicate_append_replicate,
        Nat.add_sub_cancel' (Nat.min_le_left _ _)]
    · rw [bits_addRound, show min num (32 - w.outputRegLen) = num by omega]

theorem bits_addBitsToOutput (w : BitWriter) (b : Bool) (num : ℕ) :
    (w.addBitsToOutput (word b) num).bits = w.bits ++ replicate num b :=
  bits_addBitsLoop (Nat.lt_succ_self num) w

theorem bytesBits_spillLoop {fuel len : ℕ} {x : BitVec 32} {bits : List Bool} (hfuel : len ≤ fuel)
    (hlen : len ≤ 32) (hbits : bits.length = len)
    (hx : lowBits x 32 = bits ++ replicate (32 - len) false) :
    ∃ n < 8, bytesBits (spillLoop fuel x len) = bits ++ replicate n false := by
  induction fuel generalizing len x bits with
  | zero =>
    obtain rfl : len = 0 := by omega
    obtain rfl := eq_nil_of_length_eq_zero hbits
    exact ⟨0, by omega, rfl⟩
  | succ fuel ih =>
    rw [spillLoop]
    split_ifs with hzero
    · rw [hzero] at hbits
      obtain rfl := eq_nil_of_length_eq_zero hbits
      exact ⟨0, by omega, rfl⟩
    · have hsplit := lowBits_split x 8 24
      rw [hx] at hsplit
      have hfirst : lowBits ((x >>> 24).setWidth 8) 8 =
          (bits ++ replicate (32 - len) false).take 8 := by
        rw [lowBits_byte, hsplit, take_left' (length_lowBits _ _)]
      have hrest : lowBits x 24 = (bits ++ replicate (32 - len) false).drop 8 := by
        rw [hsplit, drop_left' (length_lowBits _ _)]
      have hshift := lowBits_shiftLeft x (show 24 + 8 ≤ 32 by omega)
      rw [hrest] at hshift
      rw [bytesBits, flatMap_cons, hfirst]
      change ∃ n < 8, _ ++ bytesBits _ = _
      by_cases hshort : len < 8
      · have hend : spillLoop fuel (x <<< 8) (len - 8) = [] := by
          rw [show len - 8 = 0 by omega]
          cases fuel <;> rfl
        refine ⟨8 - len, by omega, ?_⟩
        rw [hend, take_append, take_of_length_le (by omega), take_replicate, hbits]
        simp [bytesBits]
        omega
      · have hx' : lowBits (x <<< 8) 32 =
            bits.drop 8 ++ replicate (32 - (len - 8)) false := by
          change lowBits (x <<< 8) 32 = _ at hshift
          rw [hshift, drop_append_of_le_length (by omega), append_assoc, replicate_append_replicate]
          congr 2
          omega
        obtain ⟨n, hn, hbytes⟩ :=
          ih (by omega) (by omega) (by rw [length_drop, hbits]) hx'
        refine ⟨n, hn, ?_⟩
        rw [hbytes, take_append_of_le_length (by omega), ← append_assoc, take_append_drop]

theorem bytesBits_spillPartial (w : BitWriter) :
    ∃ n < 8, bytesBits w.spillPartialRegToShared = w.bits ++ replicate n false := by
  have hlen := w.outputRegLen_lt
  have hx := lowBits_shiftLeft w.outputReg
    (show w.outputRegLen + (32 - w.outputRegLen) ≤ 32 by omega)
  rw [Nat.add_sub_cancel' (by omega)] at hx
  obtain ⟨n, hn, hbytes⟩ := bytesBits_spillLoop (le_refl w.outputRegLen) (by omega)
    (length_lowBits _ _) hx
  refine ⟨n, hn, ?_⟩
  rw [spillPartialRegToShared, bytesBits_append, hbytes, bits, append_assoc]

end BitWriter

end LMCache

namespace LMCache

open ArithmeticCode

namespace AcEncoder

def out (s : AcEncoder) (bits : List Bool) : List Bool :=
  s.output.bits ++ expand s.pendingBits.toNat bits

def Continues (cdf : Cdf) (before : List (BitVec 8)) (s s' : AcEncoder) : Prop :=
  ∀ syms bits, Code (2 ^ 30) (2 ^ 16) cdf.interval s'.low.toNat s'.high.toNat syms bits →
    ∃ bits', Code (2 ^ 30) (2 ^ 16) cdf.interval s.low.toNat s.high.toNat (before ++ syms) bits' ∧
      s.out bits' = s'.out bits

variable {cdf : Cdf} {s s' s'' : AcEncoder}

theorem Continues.trans {before : List (BitVec 8)} (h : Continues cdf before s s')
    (h' : Continues cdf [] s' s'') : Continues cdf before s s'' := by
  intro syms bits hcode
  obtain ⟨bits', hcode', hout'⟩ := h' syms bits hcode
  obtain ⟨bits'', hcode'', hout''⟩ := h syms bits' hcode'
  exact ⟨bits'', hcode'', hout''.trans hout'⟩

theorem toNat_pending {pendingBits : BitVec 64} (h : pendingBits.toNat < 2 ^ 31) :
    (pendingBits.setWidth 32).toInt.toNat = pendingBits.toNat := by
  have hwidth : (pendingBits.setWidth 32).toNat = pendingBits.toNat := by
    rw [BitVec.toNat_setWidth, Nat.mod_eq_of_lt (h.trans (by decide))]
  rw [BitVec.toInt_eq_toNat_of_lt (by rw [hwidth]; omega), hwidth, Int.toNat_natCast]

theorem out_append (b : Bool) (bits : List Bool) (h : s.pendingBits.toNat < 2 ^ 31) :
    (s.appendBitAndPending (BitWriter.word b)).out bits = s.out (b :: bits) := by
  have hflip : 1 - BitWriter.word b = BitWriter.word (!b) := by cases b <;> rfl
  rw [out, appendBitAndPending]
  change BitWriter.bits _ ++ expand 0 bits = _
  rw [hflip, BitWriter.bits_addBitsToOutput, BitWriter.bits_addBitsToOutput, toNat_pending h,
    expand_zero, out, expand, List.append_assoc, List.append_assoc]
  rfl

theorem toNat_pending_succ (h : s.pendingBits.toNat < 2 ^ 31) :
    (s.pendingBits + 1).toNat = s.pendingBits.toNat + 1 := by
  rw [BitVec.toNat_add]
  exact Nat.mod_eq_of_lt (by change _ + 1 < _; omega)

structure Turn (cdf : Cdf) (s s' : AcEncoder) : Prop where
  le : s'.low.toNat ≤ s'.high.toNat
  double : s'.high.toNat - s'.low.toNat = 2 * (s.high.toNat - s.low.toNat) + 1
  pending : s'.pendingBits.toNat ≤ s.pendingBits.toNat + 1
  continues : Continues cdf [] s s'

theorem turn_lower (hhalf : s.high.toNat < 2 ^ 31) (hle : s.low.toNat ≤ s.high.toNat)
    (h : s.pendingBits.toNat < 2 ^ 31) : Turn cdf s (s.appendBitAndPending 0).shift := by
  have hlow : (s.appendBitAndPending 0).shift.low.toNat = 2 * s.low.toNat := by
    change (s.low <<< 1).toNat = _
    rw [toNat_shift_one]
    omega
  have hhigh : (s.appendBitAndPending 0).shift.high.toNat = 2 * s.high.toNat + 1 := by
    change ((s.high <<< 1) ||| 1).toNat = _
    rw [toNat_shift_or]
    omega
  refine ⟨by omega, by omega, Nat.zero_le _, fun syms bits hcode => ?_⟩
  rw [hlow, hhigh] at hcode
  exact ⟨false :: bits, .lower (by omega) hcode, (out_append false bits h).symm⟩

theorem turn_upper (hhalf : 2 ^ 31 ≤ s.low.toNat) (hle : s.low.toNat ≤ s.high.toNat)
    (h : s.pendingBits.toNat < 2 ^ 31) : Turn cdf s (s.appendBitAndPending 1).shift := by
  have hlt := s.high.isLt
  have hlow : (s.appendBitAndPending 1).shift.low.toNat = 2 * s.low.toNat - 4 * 2 ^ 30 := by
    change (s.low <<< 1).toNat = _
    rw [toNat_shift_one]
    omega
  have hhigh : (s.appendBitAndPending 1).shift.high.toNat =
      2 * s.high.toNat + 1 - 4 * 2 ^ 30 := by
    change ((s.high <<< 1) ||| 1).toNat = _
    rw [toNat_shift_or]
    omega
  refine ⟨by omega, by omega, Nat.zero_le _, fun syms bits hcode => ?_⟩
  rw [hlow, hhigh] at hcode
  exact ⟨true :: bits, .upper (by omega) hcode, (out_append true bits h).symm⟩

def defer (s : AcEncoder) : AcEncoder :=
  { s with
    pendingBits := s.pendingBits + 1
    low := (s.low <<< 1) &&& 0x7FFFFFFF
    high := (s.high <<< 1) ||| 0x80000001 }

theorem turn_middle (hlow : 2 ^ 30 ≤ s.low.toNat ∧ s.low.toNat < 2 ^ 31)
    (hhigh : 2 ^ 31 ≤ s.high.toNat ∧ s.high.toNat < 3 * 2 ^ 30)
    (h : s.pendingBits.toNat < 2 ^ 31) : Turn cdf s s.defer := by
  have hlow' : s.defer.low.toNat = 2 * s.low.toNat - 2 * 2 ^ 30 := by
    change ((s.low <<< 1) &&& 0x7FFFFFFF).toNat = _
    rw [toNat_shift_and]
    omega
  have hhigh' : s.defer.high.toNat = 2 * s.high.toNat + 1 - 2 * 2 ^ 30 := by
    change ((s.high <<< 1) ||| 0x80000001).toNat = _
    rw [toNat_shift_or_msb]
    omega
  have hpending : s.defer.pendingBits.toNat = s.pendingBits.toNat + 1 := toNat_pending_succ h
  refine ⟨by omega, by omega, hpending.le, fun syms bits hcode => ?_⟩
  rw [hlow', hhigh'] at hcode
  obtain ⟨b, rest, rfl⟩ := hcode.exists_cons
  refine ⟨b :: (!b) :: rest, .middle ⟨by omega, by omega, by omega, by omega⟩ hcode, ?_⟩
  rw [out, out, hpending, expand_succ]
  rfl

def Settled (s : AcEncoder) : Prop :=
  Normal (2 ^ 30) s.low.toNat s.high.toNat ∧ s.low.toNat ≤ s.high.toNat

theorem renormalize_cases (cdf : Cdf) (fuel : ℕ) (hle : s.low.toNat ≤ s.high.toNat)
    (h : s.pendingBits.toNat < 2 ^ 31) :
    renormalize (fuel + 1) s = some s ∧ s.Settled ∨
      ∃ s', renormalize (fuel + 1) s = renormalize fuel s' ∧ Turn cdf s s' := by
  rw [renormalize]
  split_ifs with hlower hupper hmiddle
  · exact .inr ⟨_, rfl, turn_lower hlower hle h⟩
  · exact .inr ⟨_, rfl, turn_upper hupper hle h⟩
  · exact .inr ⟨_, rfl, turn_middle ⟨hmiddle.1, Nat.lt_of_not_le hupper⟩
      ⟨Nat.le_of_not_lt hlower, hmiddle.2⟩ h⟩
  · have hlow : s.low.toNat < 2 ^ 31 := Nat.lt_of_not_le hupper
    have hhigh : 2 ^ 31 ≤ s.high.toNat := Nat.le_of_not_lt hlower
    have hquarters : ¬ (2 ^ 30 ≤ s.low.toNat ∧ s.high.toNat < 3 * 2 ^ 30) := hmiddle
    exact .inl ⟨rfl, ⟨by omega, by omega, by omega⟩, hle⟩

theorem renormalize_spec (cdf : Cdf) {n fuel : ℕ} {s : AcEncoder} (hfuel : n ≤ fuel)
    (hle : s.low.toNat ≤ s.high.toNat)
    (hspan : 2 ^ 32 < (s.high.toNat - s.low.toNat + 1) * 2 ^ n)
    (hpending : s.pendingBits.toNat + n < 2 ^ 31) :
    ∃ s', renormalize fuel s = some s' ∧ s'.Settled ∧
      s'.pendingBits.toNat ≤ s.pendingBits.toNat + n ∧ Continues cdf [] s s' := by
  induction n generalizing fuel s with
  | zero =>
    have hlt := s.high.isLt
    omega
  | succ n ih =>
    obtain ⟨fuel, rfl⟩ : ∃ m, fuel = m + 1 := ⟨fuel - 1, by omega⟩
    rcases renormalize_cases cdf fuel hle (by omega) with ⟨hdone, hsettled⟩ | ⟨next, hnext, hturn⟩
    · exact ⟨s, hdone, hsettled, Nat.le_add_right _ _, fun syms bits hcode => ⟨bits, hcode, rfl⟩⟩
    · have hdouble : (next.high.toNat - next.low.toNat + 1) * 2 ^ n =
          (s.high.toNat - s.low.toNat + 1) * 2 ^ (n + 1) := by
        rw [hturn.double, Nat.pow_succ]
        ring
      have hpend := hturn.pending
      obtain ⟨s', hs', hsettled, hle', hcont⟩ :=
        ih (Nat.le_of_succ_le_succ hfuel) hturn.le (hdouble ▸ hspan) (by omega)
      exact ⟨s', hnext.trans hs', hsettled, by omega, hturn.continues.trans hcont⟩

theorem narrow_spec {sym : BitVec 8} (hsettled : s.Settled)
    (hvalid : Valid (2 ^ 16) cdf.interval [sym]) :
    (s.narrow cdf sym).low.toNat ≤ (s.narrow cdf sym).high.toNat ∧
      Continues cdf [sym] s (s.narrow cdf sym) := by
  obtain ⟨hnormal, hle⟩ := hsettled
  obtain ⟨hlt, hc⟩ := hvalid sym List.mem_cons_self
  have hspan := hnormal.span
  have hwide : 2 ^ 16 ≤ s.high.toNat - s.low.toNat + 1 := by omega
  obtain ⟨hnonempty, hpos⟩ := narrow_nonempty hlt (by decide) hwide
  have hlow : (s.narrow cdf sym).low.toNat =
      narrowLow (2 ^ 16) (cdf.interval sym) s.low.toNat s.high.toNat :=
    toNat_acLow hle (cdf.cLow_lt sym.toNat)
  have hhigh : (s.narrow cdf sym).high.toNat =
      narrowHigh (2 ^ 16) (cdf.interval sym) s.low.toNat s.high.toNat :=
    toNat_acHigh hle hc hpos
  refine ⟨by rw [hlow, hhigh]; exact Nat.le_of_lt_succ hnonempty, fun syms bits hcode => ?_⟩
  rw [hlow, hhigh] at hcode
  exact ⟨bits, .symbol hnormal hcode, rfl⟩

variable {inputSym : List (BitVec 8)}

theorem encodeLoop_spec {fuel : ℕ} (hfuel : 33 ≤ fuel)
    (hvalid : Valid (2 ^ 16) cdf.interval inputSym) (hsettled : s.Settled)
    (hpending : s.pendingBits.toNat + 33 * inputSym.length < 2 ^ 31) :
    ∃ s', encodeLoop fuel cdf inputSym s = some s' ∧ s'.Settled ∧
      s'.pendingBits.toNat ≤ s.pendingBits.toNat + 33 * inputSym.length ∧
      Continues cdf inputSym s s' := by
  induction inputSym generalizing s with
  | nil => exact ⟨s, rfl, hsettled, le_rfl, fun syms bits hcode => ⟨bits, hcode, rfl⟩⟩
  | cons sym inputSym ih =>
    rw [List.length_cons] at hpending
    obtain ⟨hle, hnarrow⟩ := narrow_spec hsettled
      fun a ha => hvalid a (List.mem_singleton.mp ha ▸ List.mem_cons_self)
    obtain ⟨next, hnext, hsettled', hpend, hcont⟩ := renormalize_spec cdf hfuel hle
      (show 2 ^ 32 < (_ + 1) * 2 ^ 33 by omega) (by change s.pendingBits.toNat + 33 < _; omega)
    change next.pendingBits.toNat ≤ s.pendingBits.toNat + 33 at hpend
    obtain ⟨s', hs', hsettled'', hpend', hcont'⟩ := ih
      (fun a ha => hvalid a (List.mem_cons_of_mem sym ha)) hsettled' (by omega)
    refine ⟨s', ?_, hsettled'', by rw [List.length_cons]; omega, fun syms bits hcode => ?_⟩
    · rw [encodeLoop, hnext, Option.bind_some, hs']
    · obtain ⟨bits', hcode', hout'⟩ := hcont' syms bits hcode
      obtain ⟨bits'', hcode'', hout''⟩ := (hnarrow.trans hcont) (inputSym ++ syms) bits' hcode'
      exact ⟨bits'', hcode'', hout''.trans hout'⟩

theorem finish_spec (hpending : s.pendingBits.toNat + 1 < 2 ^ 31) :
    ∃ n < 8, bytesBits s.finish =
      s.out (if s.low.toNat < 2 ^ 30 then [false, true] else [true, false]) ++
        List.replicate n false := by
  have hsucc : ({ s with pendingBits := s.pendingBits + 1 } : AcEncoder).pendingBits.toNat =
      s.pendingBits.toNat + 1 := toNat_pending_succ (by omega)
  have hout : ∀ b, (({ s with pendingBits := s.pendingBits + 1 } : AcEncoder).appendBitAndPending
      (BitWriter.word b)).output.bits = s.out [b, !b] := by
    intro b
    have happend := out_append b [] (by omega : ({ s with pendingBits := s.pendingBits + 1 } :
      AcEncoder).pendingBits.toNat < 2 ^ 31)
    rw [out, out, hsucc, expand_succ] at happend
    exact (List.append_nil _).symm.trans happend
  rw [finish]
  by_cases hlow : s.low.toNat < 2 ^ 30
  · have hbranch : s.low < 0x40000000 := hlow
    rw [if_pos hlow, ← show _ = s.out [false, true] from hout false]
    simp only [hbranch, if_true]
    exact BitWriter.bytesBits_spillPartial _
  · have hbranch : ¬ s.low < 0x40000000 := hlow
    rw [if_neg hlow, ← show _ = s.out [true, false] from hout true]
    simp only [hbranch, if_false]
    exact BitWriter.bytesBits_spillPartial _

theorem settled_init : init.Settled := by
  refine ⟨⟨?_, ?_, ?_⟩, ?_⟩ <;> decide

theorem encode_spec {fuel : ℕ} (hfuel : 33 ≤ fuel) (hvalid : Valid (2 ^ 16) cdf.interval inputSym)
    (hlen : inputSym.length ≤ 256) :
    ∃ bytes bits, encode fuel cdf inputSym = some bytes ∧
      Code (2 ^ 30) (2 ^ 16) cdf.interval 0 (2 ^ 32 - 1) inputSym bits ∧
      ∃ n < 8, bytesBits bytes = bits ++ List.replicate n false := by
  have hzero : init.pendingBits.toNat = 0 := rfl
  obtain ⟨s, hs, hsettled, hpending, hcont⟩ :=
    encodeLoop_spec hfuel hvalid settled_init (by omega)
  obtain ⟨bits, hcode, hout⟩ := hcont [] _ (.finish hsettled.1)
  obtain ⟨n, hn, hbytes⟩ := finish_spec (s := s) (by omega)
  rw [List.append_nil] at hcode
  refine ⟨s.finish, bits, ?_, hcode, n, hn, ?_⟩
  · rw [encode, hs, Option.map_some]
  · rw [hbytes, ← hout, out, hzero, expand_zero]
    rfl

end AcEncoder

end LMCache
