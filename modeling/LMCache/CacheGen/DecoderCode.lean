import LMCache.CacheGen.EncoderCode

namespace LMCache

open ArithmeticCode List Nat BitVec AcDecoder AcEncoder

variable (bytestream : ℕ → BitVec 8)

def bitStream (i : ℕ) : Bool :=
  (bytestream (i / 8)).getLsbD (7 - i % 8)

theorem getElem?_lowBits {w : ℕ} (x : BitVec w) {n i : ℕ} (h : i < n) :
    (lowBits x n)[i]? = some (x.getLsbD (n - 1 - i)) := by
  induction n generalizing i with
  | zero => omega
  | succ n ih =>
    cases i with
    | zero => rfl
    | succ i =>
      rw [lowBits, getElem?_cons_succ, ih (by omega)]
      congr 2
      omega

variable {bytes : List (BitVec 8)}

theorem starts_bytesBits {bytestream : ℕ → BitVec 8}
    (h : ∀ j byte, bytes[j]? = some byte → bytestream j = byte) :
    Starts (bytesBits bytes) (bitStream bytestream) := by
  induction bytes generalizing bytestream with
  | nil => exact fun i b hb => by simp [bytesBits] at hb
  | cons byte bytes ih =>
    intro i b hb
    rw [bytesBits, flatMap_cons] at hb
    by_cases hi : i < 8
    · rw [getElem?_append_left (by rwa [length_lowBits]), getElem?_lowBits byte hi] at hb
      rw [bitStream, show i / 8 = 0 by omega, show i % 8 = i by omega, h 0 byte rfl]
      exact Option.some.inj hb
    · rw [getElem?_append_right (by rw [length_lowBits]; omega), length_lowBits] at hb
      have hrest := ih (fun j => h (j + 1)) (i - 8) b hb
      rw [bitStream] at hrest ⊢
      rw [show i / 8 = (i - 8) / 8 + 1 by omega, show i % 8 = (i - 8) % 8 by omega]
      exact hrest

theorem window_eq_div (x : BitVec 32) {s : ℕ → Bool}
    (h : ∀ i < 32, s i = x.getLsbD (31 - i)) {n : ℕ} (hn : n ≤ 32) :
    window n s = x.toNat / 2 ^ (32 - n) := by
  induction n with
  | zero => rw [window, div_eq_of_lt x.isLt]
  | succ n ih =>
    rw [window, ih (by omega), h n (by omega), getLsbD, toNat_testBit,
      show 32 - n = 31 - n + 1 by omega, show 32 - (n + 1) = 31 - n by omega, pow_succ,
      ← Nat.div_div_eq_div_mul]
    omega

namespace AcDecoder

structure Reads (bytestream : ℕ → BitVec 8) (d : AcDecoder) (pos : ℕ) : Prop where
  byteBuffer : d.byteBuffer = bytestream d.byteBufferOffset
  bitIdx : 1 ≤ d.bitIdx ∧ d.bitIdx ≤ 8
  pos : pos = 8 * d.byteBufferOffset + d.bitIdx - 1

variable {bytestream : ℕ → BitVec 8} {d : AcDecoder} {pos : ℕ}

def read (bytestream : ℕ → BitVec 8) (d : AcDecoder) : AcDecoder :=
  checkAndUpdateByteBuffer bytestream d.readNextBit

theorem read_frame (bytestream : ℕ → BitVec 8) (d : AcDecoder) :
    (d.read bytestream).low = d.low ∧ (d.read bytestream).high = d.high ∧
      (d.read bytestream).value = d.readNextBit.value ∧
      (d.read bytestream).output = d.output ∧ (d.read bytestream).visited = d.visited ∧
      (d.read bytestream).quotients = d.quotients := by
  rw [read, checkAndUpdateByteBuffer]
  split_ifs <;> exact ⟨rfl, rfl, rfl, rfl, rfl, rfl⟩

theorem Reads.value (h : d.Reads bytestream pos) :
    (d.read bytestream).value.toNat =
      2 * d.value.toNat % 2 ^ 32 + (bitStream bytestream pos).toNat := by
  obtain ⟨hbuffer, hbitIdx, hpos⟩ := h
  have hbit : (((d.byteBuffer >>> (8 - d.bitIdx)) &&& 1).setWidth 32 : BitVec 32).toNat =
      (bitStream bytestream pos).toNat := by
    rw [bitStream, show pos / 8 = d.byteBufferOffset by omega,
      show 7 - pos % 8 = 8 - d.bitIdx by omega, getLsbD, toNat_testBit, ← hbuffer,
      toNat_setWidth, toNat_and, toNat_ushiftRight,
      shiftRight_eq_div_pow, show (1 : BitVec 8).toNat = 1 from rfl, and_one_is_mod]
    omega
  rw [(read_frame bytestream d).2.2.1, readNextBit, ← hbit]
  exact toNat_shift_or_bit d.value (hbit ▸ Bool.toNat_lt _)

theorem Reads.next (h : d.Reads bytestream pos) :
    (d.read bytestream).Reads bytestream (pos + 1) := by
  obtain ⟨hbuffer, hbitIdx, hpos⟩ := h
  rw [read, checkAndUpdateByteBuffer]
  split_ifs with hlast
  · have hlast' : d.bitIdx + 1 = 9 := hlast
    refine ⟨rfl, ⟨le_rfl, succ_le_succ (zero_le 7)⟩, ?_⟩
    change pos + 1 = 8 * (d.byteBufferOffset + 1) + 1 - 1
    omega
  · have hlast' : ¬ d.bitIdx + 1 = 9 := hlast
    refine ⟨hbuffer, ⟨by change 1 ≤ d.bitIdx + 1; omega, by change d.bitIdx + 1 ≤ 8; omega⟩, ?_⟩
    change pos + 1 = 8 * d.byteBufferOffset + (d.bitIdx + 1) - 1
    omega

structure Follows (cdf : Cdf) (bytestream : ℕ → BitVec 8) (syms : List (BitVec 8))
    (d : AcDecoder) (s : ℕ → Bool) (pos : ℕ) : Prop where
  tracks : Tracks 30 (2 ^ 16) cdf.interval d.low.toNat d.high.toNat syms s
  value : d.value.toNat = window 32 s
  reads : d.Reads bytestream pos
  rest : ∀ i, s (32 + i) = bitStream bytestream (pos + i)

def Within (d : AcDecoder) : Prop := d.low.toNat ≤ d.value.toNat ∧ d.value.toNat ≤ d.high.toNat

variable {cdf : Cdf} {syms : List (BitVec 8)} {s : ℕ → Bool}

theorem Follows.within (h : Follows cdf bytestream syms d s pos) : d.Within := by
  rw [Within, h.value]
  exact h.tracks.window_mem (by decide) (by decide)

theorem Follows.read (h : Follows cdf bytestream syms d s pos) {low high value : BitVec 32}
    {s' : ℕ → Bool} (htracks : Tracks 30 (2 ^ 16) cdf.interval low.toNat high.toNat syms s')
    (hvalue : 2 * value.toNat % 2 ^ 32 + (s 32).toNat = window 32 s')
    (hrest : ∀ i, s' (32 + i) = s (32 + (i + 1))) :
    Follows cdf bytestream syms (read bytestream { d with low, high, value }) s'
      (pos + 1) := by
  have hreads : Reads bytestream { d with low, high, value } pos :=
    ⟨h.reads.byteBuffer, h.reads.bitIdx, h.reads.pos⟩
  obtain ⟨hlow, hhigh, _⟩ := read_frame bytestream { d with low, high, value }
  refine ⟨by rwa [hlow, hhigh], ?_, hreads.next, fun i => ?_⟩
  · rw [hreads.value, ← hvalue, h.rest 0]
    rfl
  · rw [hrest, h.rest, add_assoc, add_comm 1 i]

structure Turn (cdf : Cdf) (bytestream : ℕ → BitVec 8) (syms : List (BitVec 8))
    (d d' : AcDecoder) : Prop where
  follows : ∃ s pos, Follows cdf bytestream syms d' s pos
  double : d'.high.toNat - d'.low.toNat = 2 * (d.high.toNat - d.low.toNat) + 1
  output : d'.output = d.output
  visited : d'.visited = d.visited
  quotients : d'.quotients = d.quotients

theorem turn_outer (h : Follows cdf bytestream syms d s pos)
    (hhalf : 2 ^ 31 ≤ d.low.toNat ∨ d.high.toNat < 2 ^ 31) :
    Turn cdf bytestream syms d (read bytestream
      { d with low := d.low <<< 1, high := (d.high <<< 1) ||| 1 }) := by
  have hlt := d.high.isLt
  have hle := h.tracks.le
  have hlow := toNat_shift_one d.low
  have hhigh := toNat_shift_or d.high
  have hshift : 2 * window 32 s + (s 32).toNat = (s 0).toNat * (4 * 2 ^ 30) + window 32 (tail s) :=
    window_shift 30 s
  have hwindow := window_lt 32 (tail s)
  have hbit := Bool.toNat_lt (s 32)
  have htracks : Tracks 30 (2 ^ 16) cdf.interval (d.low <<< 1).toNat
      ((d.high <<< 1) ||| 1).toNat syms (tail s) := by
    rw [hlow, hhigh]
    rcases hhalf with hupper | hlower
    · have hnext := h.tracks.upper (by omega)
      convert hnext using 1 <;> omega
    · have hnext := h.tracks.lower (by omega)
      convert hnext using 1 <;> omega
  have hvalue : 2 * d.value.toNat % 2 ^ 32 + (s 32).toNat = window 32 (tail s) := by
    rw [h.value]
    omega
  obtain ⟨hlow', hhigh', _, houtput, hvisited, hquotients⟩ := read_frame bytestream
    { d with low := d.low <<< 1, high := (d.high <<< 1) ||| 1 }
  refine ⟨⟨tail s, pos + 1, h.read htracks hvalue fun i => rfl⟩, ?_, houtput, hvisited, hquotients⟩
  rw [hlow', hhigh', hlow, hhigh]
  omega

theorem turn_middle (h : Follows cdf bytestream syms d s pos)
    (hlow : 2 ^ 30 ≤ d.low.toNat ∧ d.low.toNat < 2 ^ 31)
    (hhigh : 2 ^ 31 ≤ d.high.toNat ∧ d.high.toNat < 3 * 2 ^ 30) :
    Turn cdf bytestream syms d (read bytestream
      { d with
        low := (d.low <<< 1) &&& 0x7FFFFFFF
        high := (d.high <<< 1) ||| 0x80000001
        value := d.value - 0x40000000 }) := by
  obtain ⟨hge, hle⟩ := h.within
  have hlow' := toNat_shift_and d.low
  have hhigh' := toNat_shift_or_msb d.high
  obtain ⟨hsecond, hnext⟩ := h.tracks.middle ⟨by omega, by omega, by omega, by omega⟩
  have hshift : 2 * window 32 s + (s 32).toNat = 2 * 2 ^ 30 + window 32 (dropSecond s) :=
    window_shift_dropSecond 30 s hsecond
  have hwindow := window_lt 32 (dropSecond s)
  have hbit := Bool.toNat_lt (s 32)
  have htracks : Tracks 30 (2 ^ 16) cdf.interval ((d.low <<< 1) &&& 0x7FFFFFFF).toNat
      ((d.high <<< 1) ||| 0x80000001).toNat syms (dropSecond s) := by
    rw [hlow', hhigh']
    convert hnext using 1 <;> omega
  have hsub : (d.value - 0x40000000).toNat = d.value.toNat - 2 ^ 30 := by
    have hvalue := d.value.isLt
    rw [toNat_sub, show (0x40000000 : BitVec 32).toNat = 2 ^ 30 from rfl]
    omega
  have hvalue : 2 * (d.value - 0x40000000).toNat % 2 ^ 32 + (s 32).toNat =
      window 32 (dropSecond s) := by
    rw [hsub]
    rw [h.value] at hge hle ⊢
    omega
  obtain ⟨hlow'', hhigh'', _, houtput, hvisited, hquotients⟩ := read_frame bytestream
    { d with
      low := (d.low <<< 1) &&& 0x7FFFFFFF
      high := (d.high <<< 1) ||| 0x80000001
      value := d.value - 0x40000000 }
  refine ⟨⟨dropSecond s, pos + 1, h.read htracks hvalue fun i => ?_⟩, ?_, houtput, hvisited,
    hquotients⟩
  · rw [show 32 + i = 31 + i + 1 by omega, dropSecond]
    congr 1
    omega
  · rw [hlow'', hhigh'', hlow', hhigh']
    omega

theorem Follows.visit (h : Follows cdf bytestream syms d s pos) :
    Follows cdf bytestream syms d.visit s pos :=
  ⟨h.tracks, h.value, ⟨h.reads.byteBuffer, h.reads.bitIdx, h.reads.pos⟩, h.rest⟩

structure Logged (d : AcDecoder) : Prop where
  visited : ∀ v ∈ d.visited, v.1 ≤ v.2.2 ∧ v.2.2 ≤ v.2.1
  quotients : ∀ q ∈ d.quotients, q < 0x10000

theorem Logged.visit (h : d.Logged) (hwithin : d.Within) : d.visit.Logged := by
  refine ⟨fun v hv => ?_, h.quotients⟩
  rcases mem_append.mp hv with hold | hnew
  · exact h.visited v hold
  · rw [mem_singleton.mp hnew]
    exact hwithin

theorem Logged.emit (h : d.Logged) (hquotient : d.quotient.toNat < 2 ^ 16) (sym : ℕ) :
    (d.emit sym).Logged := by
  refine ⟨h.visited, fun q hq => ?_⟩
  rcases mem_append.mp hq with hold | hnew
  · exact h.quotients q hold
  · rw [mem_singleton.mp hnew]
    exact hquotient

def Settled (d : AcDecoder) : Prop := Normal (2 ^ 30) d.low.toNat d.high.toNat

theorem renormalize_cases (fuel : ℕ) (h : Follows cdf bytestream syms d s pos) :
    renormalize bytestream (fuel + 1) d = some d.visit ∧ d.Settled ∨
      ∃ d', renormalize bytestream (fuel + 1) d = renormalize bytestream fuel d' ∧
        Turn cdf bytestream syms d.visit d' := by
  rw [renormalize]
  split_ifs with houter hmiddle
  · exact .inr ⟨_, rfl, turn_outer h.visit houter⟩
  · obtain ⟨hupper, hlower⟩ := not_or.mp houter
    exact .inr ⟨_, rfl, turn_middle h.visit ⟨hmiddle.1, Nat.lt_of_not_le hupper⟩
      ⟨Nat.le_of_not_lt hlower, hmiddle.2⟩⟩
  · obtain ⟨hupper, hlower⟩ := not_or.mp houter
    have hlow : d.low.toNat < 2 ^ 31 := Nat.lt_of_not_le hupper
    have hhigh : 2 ^ 31 ≤ d.high.toNat := Nat.le_of_not_lt hlower
    have hquarters : ¬ (2 ^ 30 ≤ d.low.toNat ∧ d.high.toNat < 3 * 2 ^ 30) := hmiddle
    exact .inl ⟨rfl, by omega, by omega, by omega⟩

theorem renormalize_spec {n fuel : ℕ} (hfuel : n ≤ fuel)
    (h : ∃ s pos, Follows cdf bytestream syms d s pos) (hlog : d.Logged)
    (hspan : 2 ^ 32 < (d.high.toNat - d.low.toNat + 1) * 2 ^ n) :
    ∃ d', renormalize bytestream fuel d = some d' ∧ d'.Settled ∧ d'.Logged ∧
      d'.output = d.output ∧ ∃ s pos, Follows cdf bytestream syms d' s pos := by
  induction n generalizing fuel d with
  | zero =>
    have hlt := d.high.isLt
    omega
  | succ n ih =>
    obtain ⟨fuel, rfl⟩ : ∃ m, fuel = m + 1 := ⟨fuel - 1, by omega⟩
    obtain ⟨s, pos, hfollows⟩ := h
    have hvisit := hlog.visit hfollows.within
    rcases renormalize_cases fuel hfollows with ⟨hdone, hsettled⟩ | ⟨next, hnext, hturn⟩
    · exact ⟨d.visit, hdone, hsettled, hvisit, rfl, s, pos, hfollows.visit⟩
    · have hdouble : (next.high.toNat - next.low.toNat + 1) * 2 ^ n =
          (d.high.toNat - d.low.toNat + 1) * 2 ^ (n + 1) := by
        rw [hturn.double, pow_succ]
        change (2 * (d.high.toNat - d.low.toNat) + 1 + 1) * 2 ^ n = _
        ring
      have hnextLog : next.Logged :=
        ⟨hturn.visited ▸ hvisit.visited, hturn.quotients ▸ hvisit.quotients⟩
      obtain ⟨d', hd', hsettled, hlog', houtput, hfollows'⟩ :=
        ih (le_of_succ_le_succ hfuel) hturn.follows hnextLog (hdouble ▸ hspan)
      exact ⟨d', hnext.trans hd', hsettled, hlog', houtput.trans hturn.output, hfollows'⟩

variable {sym : BitVec 8}

theorem follows_narrow (h : Follows cdf bytestream (sym :: syms) d s pos) (hsettled : d.Settled) :
    Follows cdf bytestream syms ((d.emit sym.toNat).narrow cdf sym.toNat) s pos := by
  obtain ⟨hlt, hc⟩ := h.tracks.valid sym mem_cons_self
  have hspan := hsettled.span
  have hpos := (narrow_nonempty hlt (by decide)
    (show 2 ^ 16 ≤ d.high.toNat - d.low.toNat + 1 by omega)).2
  have htracks := h.tracks.symbol hsettled (by decide) (by decide)
  refine ⟨?_, h.value, ⟨h.reads.byteBuffer, h.reads.bitIdx, h.reads.pos⟩, h.rest⟩
  change Tracks 30 (2 ^ 16) cdf.interval
    (acLow (acSpan d.low d.high) d.low (cdf.cLow sym.toNat)).toNat
    (acHigh (acSpan d.low d.high) d.low (cdf.cHigh sym.toNat)).toNat syms s
  rw [toNat_acLow h.tracks.le (cdf.cLow_lt sym.toNat), toNat_acHigh h.tracks.le hc hpos]
  exact htracks

theorem Follows.lookup (h : Follows cdf bytestream (sym :: syms) d s pos) (hsettled : d.Settled)
    (hsym : sym.toNat < cdf.lp - 1) :
    d.quotient.toNat < 2 ^ 16 ∧ d.lookup cdf = sym.toNat := by
  obtain ⟨hlt, _⟩ := h.tracks.valid sym mem_cons_self
  have hspan := hsettled.span
  have hpos := (narrow_nonempty hlt (by decide)
    (show 2 ^ 16 ≤ d.high.toNat - d.low.toNat + 1 by omega)).2
  have hmem := (h.tracks.symbol hsettled (by decide) (by decide)).window_mem (by decide) (by decide)
  exact lookup_eq hsym h.within.1 h.within.2 hpos (h.value ▸ hmem)

theorem decodeLoop_spec {fuel : ℕ} (hfuel : 33 ≤ fuel)
    (h : ∃ s pos, Follows cdf bytestream syms d s pos) (hsettled : d.Settled) (hlog : d.Logged)
    (hsyms : ∀ sym ∈ syms, sym.toNat < cdf.lp - 1) :
    ∃ d', decodeLoop bytestream fuel cdf syms.length d = some d' ∧
      d'.output = d.output ++ syms ∧ d'.Logged := by
  induction syms generalizing d with
  | nil => exact ⟨d, rfl, (append_nil _).symm, hlog⟩
  | cons sym syms ih =>
    obtain ⟨s, pos, hfollows⟩ := h
    obtain ⟨hquotient, hlookup⟩ :=
      hfollows.visit.lookup hsettled (hsyms sym mem_cons_self)
    have hemit := (hlog.visit hfollows.within).emit hquotient sym.toNat
    have houtput : (d.visit.emit sym.toNat).output = d.output ++ [sym] := by
      change d.output ++ [BitVec.ofNat 8 sym.toNat] = _
      rw [ofNat_toNat, setWidth_eq]
    rw [length_cons, decodeLoop, hlookup]
    split_ifs with hlast
    · rw [eq_nil_of_length_eq_zero hlast]
      exact ⟨_, rfl, houtput, hemit⟩
    · have hnarrow := follows_narrow hfollows.visit hsettled
      have hle := hnarrow.tracks.le
      obtain ⟨next, hnext, hsettled', hlog', houtput', hfollows'⟩ :=
        renormalize_spec hfuel ⟨s, pos, hnarrow⟩ ⟨hemit.visited, hemit.quotients⟩
          (show 2 ^ 32 < (_ + 1) * 2 ^ 33 by omega)
      obtain ⟨d', hd', hresult, hlog''⟩ := ih hfollows' hsettled' hlog'
        fun a ha => hsyms a (mem_cons_of_mem sym ha)
      refine ⟨d', by rw [hnext, Option.bind_some, hd'], ?_, hlog''⟩
      rw [hresult, houtput', append_cons, ← houtput]
      rfl

end AcDecoder

namespace AcDecoder

theorem value_init {i : ℕ} (hi : i < 32) :
    bitStream bytestream i = (init bytestream).value.getLsbD (31 - i) := by
  change _ = getLsbD (bytestream 0 ++ bytestream 1 ++ bytestream 2 ++ bytestream 3) (31 - i)
  rw [getLsbD_append, getLsbD_append, getLsbD_append, bitStream]
  split_ifs with hfourth hthird hsecond
  · rw [show i / 8 = 3 by omega, show 7 - i % 8 = 31 - i by omega]
  · rw [show i / 8 = 2 by omega, show 7 - i % 8 = 31 - i - 8 by omega]
  · rw [show i / 8 = 1 by omega, show 7 - i % 8 = 31 - i - 8 - 8 by omega]
  · rw [show i / 8 = 0 by omega, show 7 - i % 8 = 31 - i - 8 - 8 - 8 by omega]

theorem settled_init : (init bytestream).Settled := by
  refine ⟨?_, ?_, .inl ?_⟩ <;> exact of_decide_eq_true rfl

theorem follows_init {cdf : Cdf} {bytestream : ℕ → BitVec 8} {syms : List (BitVec 8)}
    {bits : List Bool} (hvalid : Valid (2 ^ 16) cdf.interval syms)
    (hcode : Code (2 ^ 30) (2 ^ 16) cdf.interval 0 (2 ^ 32 - 1) syms bits)
    (hs : Starts bits (bitStream bytestream)) :
    Follows cdf bytestream syms (init bytestream) (bitStream bytestream) 32 := by
  refine ⟨⟨⟨bits, hcode, hs⟩, hvalid, zero_le _, (by decide : 2 ^ 32 - 1 < 4 * 2 ^ 30)⟩, ?_,
    ⟨rfl, ⟨le_rfl, le_add_left 1 7⟩, rfl⟩, fun i => rfl⟩
  rw [window_eq_div (init bytestream).value (fun i hi => value_init bytestream hi) le_rfl,
    Nat.sub_self, Nat.pow_zero, Nat.div_one]

end AcDecoder

theorem bytestreamsShared_of_getElem? {byte : BitVec 8} {j : ℕ} (h : bytes.length ≤ 256)
    (nextRow : ℕ → BitVec 8) (hj : bytes[j]? = some byte) :
    bytestreamsShared bytes nextRow j = byte := by
  obtain ⟨hlt, _⟩ := List.getElem?_eq_some_iff.mp hj
  rw [bytestreamsShared, if_pos (hlt.trans_le h), getD_eq_getElem?_getD, hj, Option.getD_some]

theorem decode_acEncode (cdf : Cdf) {inputSym : List (BitVec 8)} (hlen : inputSym.length ≤ 256)
    (hsyms : ∀ sym ∈ inputSym, sym.toNat < cdf.lp - 1) {fuel : ℕ} (hfuel : 33 ≤ fuel)
    (hfits : ∀ bytes, encode fuel cdf inputSym = some bytes → bytes.length ≤ 256)
    (nextRow : ℕ → BitVec 8) :
    ∃ bytes bits d, encode fuel cdf inputSym = some bytes ∧
      Code (2 ^ 30) (2 ^ 16) cdf.interval 0 (2 ^ 32 - 1) inputSym bits ∧
      (∃ n < 8, bytesBits bytes = bits ++ replicate n false) ∧
      decode (bytestreamsShared bytes nextRow) fuel cdf inputSym.length = some d ∧
      d.output = inputSym ∧
      (∀ v ∈ d.visited, v.1 ≤ v.2.2 ∧ v.2.2 ≤ v.2.1) ∧
      ∀ q ∈ d.quotients, q < 0x10000 := by
  have hvalid := cdf.valid inputSym hsyms
  obtain ⟨bytes, bits, hencode, hcode, n, hn, hbytes⟩ := encode_spec hfuel hvalid hlen
  have hs : Starts bits (bitStream (bytestreamsShared bytes nextRow)) := by
    have hstarts := starts_bytesBits fun j byte =>
      bytestreamsShared_of_getElem? (hfits bytes hencode) nextRow
    rw [hbytes] at hstarts
    exact hstarts.prefix
  obtain ⟨d, hdecode, houtput, hlog⟩ := decodeLoop_spec hfuel
    ⟨_, 32, follows_init hvalid hcode hs⟩ (settled_init _)
    ⟨fun v hv => absurd hv not_mem_nil, fun q hq => absurd hq not_mem_nil⟩ hsyms
  exact ⟨bytes, bits, d, hencode, hcode, ⟨n, hn, hbytes⟩, hdecode, houtput, hlog.visited,
    hlog.quotients⟩

theorem increasing_quarters : [(0 : BitVec 16), 0x1000, 0x8000, 0xC000].Pairwise (· < ·) := by
  decide

def Cdf.quarters : Cdf :=
  ⟨[0, 0x1000, 0x8000, 0xC000], le_add_left 2 2, le_add_right 4 44, increasing_quarters, rfl⟩

theorem encode_quarters : encode 33 .quarters [0, 2, 1, 0, 0, 2] = some [8, 130] := by
  decide +kernel

theorem decode_acEncode_quarters :
    encode 33 .quarters [0, 2, 1, 0, 0, 2] = some [8, 130] ∧
      ∃ bytes bits d, encode 33 .quarters [0, 2, 1, 0, 0, 2] = some bytes ∧
        Code (2 ^ 30) (2 ^ 16) Cdf.quarters.interval 0 (2 ^ 32 - 1) [0, 2, 1, 0, 0, 2] bits ∧
        (∃ n < 8, bytesBits bytes = bits ++ replicate n false) ∧
        decode (bytestreamsShared bytes fun _ => 0xFF) 33 .quarters 6 = some d ∧
        d.output = [0, 2, 1, 0, 0, 2] ∧
        (∀ v ∈ d.visited, v.1 ≤ v.2.2 ∧ v.2.2 ≤ v.2.1) ∧
        ∀ q ∈ d.quotients, q < 0x10000 := by
  refine ⟨encode_quarters, decode_acEncode .quarters (by decide) (by decide) le_rfl ?_ _⟩
  intro bytes h
  rw [encode_quarters] at h
  rw [← Option.some.inj h]
  decide

end LMCache
