import Mathlib.Tactic.Linarith
import Mathlib.Tactic.Ring

namespace ArithmeticCode

open Nat List

def window : ℕ → (ℕ → Bool) → ℕ
  | 0, _ => 0
  | n + 1, s => 2 * window n s + (s n).toNat

def tail (s : ℕ → Bool) : ℕ → Bool := fun i => s (i + 1)

def dropSecond (s : ℕ → Bool) : ℕ → Bool
  | 0 => s 0
  | i + 1 => s (i + 2)

variable {s : ℕ → Bool}

theorem window_lt (n : ℕ) (s : ℕ → Bool) : window n s < 2 ^ n := by
  induction n with
  | zero => exact one_pos
  | succ n ih =>
    rw [window, pow_succ]
    have := Bool.toNat_lt (s n)
    omega

theorem window_eq_tail (n : ℕ) (s : ℕ → Bool) :
    window (n + 1) s = (s 0).toNat * 2 ^ n + window n (tail s) := by
  induction n with
  | zero => simp [window]
  | succ n ih =>
    rw [window, ih, window, pow_succ]
    change _ + (s (n + 1)).toNat = _ + (_ + (s (n + 1)).toNat)
    ring

theorem window_two (k : ℕ) (s : ℕ → Bool) :
    window (k + 2) s =
      (s 0).toNat * (2 * 2 ^ k) + (s 1).toNat * 2 ^ k + window k (tail (tail s)) := by
  rw [window_eq_tail (k + 1) s, window_eq_tail k (tail s), pow_succ, mul_comm (2 ^ k), add_assoc]
  rfl

theorem window_dropSecond (n : ℕ) (s : ℕ → Bool) :
    window (n + 1) (dropSecond s) = (s 0).toNat * 2 ^ n + window n (tail (tail s)) :=
  window_eq_tail n (dropSecond s)

theorem window_shift (k : ℕ) (s : ℕ → Bool) :
    2 * window (k + 2) s + (s (k + 2)).toNat =
      (s 0).toNat * (4 * 2 ^ k) + window (k + 2) (tail s) := by
  have hpow : 4 * 2 ^ k = 2 ^ (k + 2) := by rw [Nat.pow_add, Nat.mul_comm]
  rw [hpow]
  exact window_eq_tail (k + 2) s

theorem window_shift_dropSecond (k : ℕ) (s : ℕ → Bool) (h : s 1 = !s 0) :
    2 * window (k + 2) s + (s (k + 2)).toNat = 2 * 2 ^ k + window (k + 2) (dropSecond s) := by
  have hdrop : window (k + 2) (dropSecond s) =
      (s 0).toNat * (2 ^ k * 2) + window (k + 1) (tail (tail s)) := window_dropSecond (k + 1) s
  have htail : window (k + 2) (tail s) =
      (s 1).toNat * (2 ^ k * 2) + window (k + 1) (tail (tail s)) := window_eq_tail (k + 1) (tail s)
  rw [window_shift, hdrop, htail, h]
  cases s 0
  · rw [Bool.not_false, Bool.toNat_true, Bool.toNat_false]
    omega
  · rw [Bool.not_true, Bool.toNat_true, Bool.toNat_false]
    omega

def Starts (bits : List Bool) (s : ℕ → Bool) : Prop := ∀ i b, bits[i]? = some b → s i = b

theorem starts_cons {b : Bool} {bits : List Bool} :
    Starts (b :: bits) s ↔ s 0 = b ∧ Starts bits (tail s) := by
  refine ⟨fun h => ⟨h 0 b rfl, fun i c hc => h (i + 1) c hc⟩, fun h i c hc => ?_⟩
  cases i with
  | zero => exact h.1.trans (Option.some.inj hc)
  | succ i => exact h.2 i c hc

theorem starts_dropSecond {b : Bool} {bits : List Bool} (h : Starts (b :: (!b) :: bits) s) :
    s 1 = !s 0 ∧ Starts (b :: bits) (dropSecond s) := by
  obtain ⟨h0, htail⟩ := starts_cons.mp h
  obtain ⟨h1, hrest⟩ := starts_cons.mp htail
  refine ⟨?_, starts_cons.mpr ⟨h0, hrest⟩⟩
  rw [h0]
  exact h1

theorem Starts.prefix {bits rest : List Bool} (h : Starts (bits ++ rest) s) : Starts bits s := by
  intro i b hb
  obtain ⟨hlt, _⟩ := List.getElem?_eq_some_iff.mp hb
  exact h i b (by rwa [getElem?_append_left hlt])

def Normal (q low high : ℕ) : Prop := low < 2 * q ∧ 2 * q ≤ high ∧ (low < q ∨ 3 * q ≤ high)

def narrowLow (t : ℕ) (c : ℕ × ℕ) (low high : ℕ) : ℕ := low + (high - low + 1) * c.1 / t

def narrowHigh (t : ℕ) (c : ℕ × ℕ) (low high : ℕ) : ℕ := low + (high - low + 1) * c.2 / t - 1

variable {A : Type} {q t : ℕ} {c : A → ℕ × ℕ}

inductive Code (q t : ℕ) (c : A → ℕ × ℕ) : ℕ → ℕ → List A → List Bool → Prop
  | finish {low high : ℕ} (h : Normal q low high) :
      Code q t c low high [] (if low < q then [false, true] else [true, false])
  | symbol {low high : ℕ} {a : A} {syms : List A} {bits : List Bool} (h : Normal q low high)
      (hcode : Code q t c (narrowLow t (c a) low high) (narrowHigh t (c a) low high) syms bits) :
      Code q t c low high (a :: syms) bits
  | lower {low high : ℕ} {syms : List A} {bits : List Bool} (h : high < 2 * q)
      (hcode : Code q t c (2 * low) (2 * high + 1) syms bits) :
      Code q t c low high syms (false :: bits)
  | upper {low high : ℕ} {syms : List A} {bits : List Bool} (h : 2 * q ≤ low)
      (hcode : Code q t c (2 * low - 4 * q) (2 * high + 1 - 4 * q) syms bits) :
      Code q t c low high syms (true :: bits)
  | middle {low high : ℕ} {syms : List A} {b : Bool} {bits : List Bool}
      (h : q ≤ low ∧ low < 2 * q ∧ 2 * q ≤ high ∧ high < 3 * q)
      (hcode : Code q t c (2 * low - 2 * q) (2 * high + 1 - 2 * q) syms (b :: bits)) :
      Code q t c low high syms (b :: (!b) :: bits)

variable {low high : ℕ} {syms : List A} {bits : List Bool}

theorem Code.exists_cons (h : Code q t c low high syms bits) : ∃ b rest, bits = b :: rest := by
  induction h with
  | finish => split_ifs <;> exact ⟨_, _, rfl⟩
  | symbol _ _ ih => exact ih
  | lower | upper | middle => exact ⟨_, _, rfl⟩

def Valid (t : ℕ) (c : A → ℕ × ℕ) (syms : List A) : Prop :=
  ∀ a ∈ syms, (c a).1 < (c a).2 ∧ (c a).2 ≤ t

section Narrow

variable {i : ℕ × ℕ}

theorem le_narrowLow (t : ℕ) (i : ℕ × ℕ) (low high : ℕ) : low ≤ narrowLow t i low high :=
  le_add_right _ _

theorem narrowHigh_le (hi : i.2 ≤ t) (h : low ≤ high) : narrowHigh t i low high ≤ high := by
  have hle : (high - low + 1) * i.2 / t ≤ high - low + 1 :=
    Nat.div_le_of_le_mul (by rw [Nat.mul_comm]; exact Nat.mul_le_mul_right _ hi)
  rw [narrowHigh]
  omega

theorem narrow_nonempty (hi : i.1 < i.2) (ht : 0 < t) (hspan : t ≤ high - low + 1) :
    narrowLow t i low high < narrowHigh t i low high + 1 ∧ 1 ≤ (high - low + 1) * i.2 / t := by
  have hlt : (high - low + 1) * i.1 / t < (high - low + 1) * i.2 / t := by
    have hmul : (high - low + 1) * (i.1 + 1) ≤ (high - low + 1) * i.2 :=
      mul_le_mul_left _ hi
    calc (high - low + 1) * i.1 / t < (high - low + 1) * i.1 / t + 1 := lt_succ_self _
      _ = ((high - low + 1) * i.1 + t) / t := (add_div_right _ ht).symm
      _ ≤ ((high - low + 1) * i.2) / t :=
        Nat.div_le_div_right (by rw [Nat.mul_add, Nat.mul_one] at hmul; omega)
  have hpos := one_le_of_lt hlt
  refine ⟨?_, hpos⟩
  rw [narrowLow, narrowHigh, Nat.sub_add_cancel (hpos.trans (Nat.le_add_left _ _))]
  exact Nat.add_lt_add_left hlt low

def count (t low high value : ℕ) : ℕ := ((value - low + 1) * t - 1) / (high - low + 1)

theorem count_lt (ht : 0 < t) {value : ℕ} (h : value ≤ high) : count t low high value < t := by
  have hle : (value - low + 1) * t ≤ (high - low + 1) * t :=
    Nat.mul_le_mul_right t (Nat.succ_le_succ (Nat.sub_le_sub_right h low))
  exact Nat.div_lt_of_lt_mul ((sub_one_lt (mul_pos (succ_pos _) ht).ne').trans_le hle)

theorem le_count_iff (ht : 0 < t) {value n : ℕ} (h : low ≤ value) :
    n ≤ count t low high value ↔ low + (high - low + 1) * n / t ≤ value := by
  have hpos : 0 < (value - low + 1) * t := mul_pos (succ_pos _) ht
  have hsub : low + (high - low + 1) * n / t ≤ value ↔
      (high - low + 1) * n / t < value - low + 1 := by
    generalize (high - low + 1) * n / t = x
    omega
  rw [count, le_div_iff_mul_le (succ_pos _), hsub, div_lt_iff_lt_mul ht, mul_comm n]
  exact Nat.le_sub_one_iff_lt hpos

theorem mem_narrow_iff (ht : 0 < t) {value : ℕ} (h : low ≤ value)
    (hpos : 1 ≤ (high - low + 1) * i.2 / t) :
    i.1 ≤ count t low high value ∧ count t low high value < i.2 ↔
      narrowLow t i low high ≤ value ∧ value ≤ narrowHigh t i low high := by
  rw [← not_le, le_count_iff ht h, le_count_iff ht h, narrowLow, narrowHigh]
  omega

end Narrow

theorem Normal.span (h : Normal q low high) : q < high - low + 1 := by
  obtain ⟨hlow, hhigh, hquarter⟩ := h
  omega

theorem Code.window_mem {k : ℕ} (h : Code (2 ^ k) t c low high syms bits) (hvalid : Valid t c syms)
    (ht : 0 < t) (hq : t ≤ 2 ^ k) (hle : low ≤ high) (hhigh : high < 4 * 2 ^ k)
    (hs : Starts bits s) : low ≤ window (k + 2) s ∧ window (k + 2) s ≤ high := by
  induction h generalizing s with
  | finish hnormal =>
    obtain ⟨h1, h2, h3⟩ := hnormal
    have hwindow := window_two k s
    have hlt := window_lt k (tail (tail s))
    split_ifs at hs with hlow
    · obtain ⟨h0, hs1⟩ := starts_cons.mp hs
      rw [h0, show s 1 = true from (starts_cons.mp hs1).1, Bool.toNat_false, Bool.toNat_true]
        at hwindow
      omega
    · obtain ⟨h0, hs1⟩ := starts_cons.mp hs
      rw [h0, show s 1 = false from (starts_cons.mp hs1).1, Bool.toNat_false, Bool.toNat_true]
        at hwindow
      omega
  | @symbol low high a syms bits hnormal _ ih =>
    obtain ⟨hlt, hc⟩ := hvalid a mem_cons_self
    have hspan := hnormal.span
    have hnonempty := (narrow_nonempty hlt ht (hq.trans hspan.le)).1
    have hnarrow : narrowHigh t (c a) low high ≤ high := narrowHigh_le hc hle
    obtain ⟨hge, hle'⟩ := ih (fun b hb => hvalid b (mem_cons_of_mem a hb))
      (le_of_lt_succ hnonempty) (hnarrow.trans_lt hhigh) hs
    exact ⟨(le_narrowLow t (c a) low high).trans hge, hle'.trans hnarrow⟩
  | lower hhalf _ ih =>
    obtain ⟨h0, hs⟩ := starts_cons.mp hs
    obtain ⟨hge, hle'⟩ := ih hvalid (by omega) (by omega) hs
    have hwindow := window_shift k s
    rw [h0, Bool.toNat_false] at hwindow
    have hbit := Bool.toNat_lt (s (k + 2))
    omega
  | upper hhalf _ ih =>
    obtain ⟨h0, hs⟩ := starts_cons.mp hs
    obtain ⟨hge, hle'⟩ := ih hvalid (by omega) (by omega) hs
    have hwindow := window_shift k s
    rw [h0, Bool.toNat_true] at hwindow
    have hbit := Bool.toNat_lt (s (k + 2))
    omega
  | middle hquarters _ ih =>
    obtain ⟨h1, h2, h3, h4⟩ := hquarters
    obtain ⟨hge, hle'⟩ := ih hvalid (by omega) (by omega) (starts_dropSecond hs).2
    have hwindow := window_shift_dropSecond k s (starts_dropSecond hs).1
    have hbit := Bool.toNat_lt (s (k + 2))
    omega

structure Tracks (k t : ℕ) (c : A → ℕ × ℕ) (low high : ℕ) (syms : List A) (s : ℕ → Bool) :
    Prop where
  code : ∃ bits, Code (2 ^ k) t c low high syms bits ∧ Starts bits s
  valid : Valid t c syms
  le : low ≤ high
  lt : high < 4 * 2 ^ k

section Tracks

variable {k : ℕ}

theorem Tracks.window_mem (h : Tracks k t c low high syms s) (ht : 0 < t) (hq : t ≤ 2 ^ k) :
    low ≤ window (k + 2) s ∧ window (k + 2) s ≤ high := by
  obtain ⟨bits, hcode, hs⟩ := h.code
  exact hcode.window_mem h.valid ht hq h.le h.lt hs

theorem Tracks.symbol {a : A} (h : Tracks k t c low high (a :: syms) s)
    (hnormal : Normal (2 ^ k) low high) (ht : 0 < t) (hq : t ≤ 2 ^ k) :
    Tracks k t c (narrowLow t (c a) low high) (narrowHigh t (c a) low high) syms s := by
  obtain ⟨bits, hcode, hs⟩ := h.code
  obtain ⟨hlt, hc⟩ := h.valid a mem_cons_self
  refine ⟨⟨bits, ?_, hs⟩, fun b hb => h.valid b (mem_cons_of_mem a hb),
    le_of_lt_succ (narrow_nonempty hlt ht (hq.trans hnormal.span.le)).1,
    (narrowHigh_le hc h.le).trans_lt h.lt⟩
  obtain ⟨h1, h2, h3⟩ := hnormal
  cases hcode with
  | symbol _ hcode => exact hcode
  | lower hhalf | upper hhalf => omega
  | middle hquarters => omega

theorem Tracks.lower (h : Tracks k t c low high syms s) (hhalf : high < 2 * 2 ^ k) :
    Tracks k t c (2 * low) (2 * high + 1) syms (tail s) := by
  obtain ⟨bits, hcode, hs⟩ := h.code
  have hle := h.le
  refine ⟨?_, h.valid, by omega, by omega⟩
  cases hcode with
  | finish hnormal | symbol hnormal => exact absurd hnormal.2.1 (Nat.not_le_of_lt hhalf)
  | lower _ hcode => exact ⟨_, hcode, (starts_cons.mp hs).2⟩
  | upper hhalf' => omega
  | middle hquarters => omega

theorem Tracks.upper (h : Tracks k t c low high syms s) (hhalf : 2 * 2 ^ k ≤ low) :
    Tracks k t c (2 * low - 4 * 2 ^ k) (2 * high + 1 - 4 * 2 ^ k) syms (tail s) := by
  obtain ⟨bits, hcode, hs⟩ := h.code
  have hle := h.le
  have hlt := h.lt
  refine ⟨?_, h.valid, by omega, by omega⟩
  cases hcode with
  | finish hnormal | symbol hnormal => exact absurd hnormal.1 (Nat.not_lt_of_le hhalf)
  | lower hhalf' => omega
  | upper _ hcode => exact ⟨_, hcode, (starts_cons.mp hs).2⟩
  | middle hquarters => omega

theorem Tracks.middle (h : Tracks k t c low high syms s)
    (hquarters : 2 ^ k ≤ low ∧ low < 2 * 2 ^ k ∧ 2 * 2 ^ k ≤ high ∧ high < 3 * 2 ^ k) :
    s 1 = (!s 0) ∧
      Tracks k t c (2 * low - 2 * 2 ^ k) (2 * high + 1 - 2 * 2 ^ k) syms (dropSecond s) := by
  obtain ⟨bits, hcode, hs⟩ := h.code
  have hle := h.le
  obtain ⟨h1, h2, h3, h4⟩ := hquarters
  cases hcode with
  | finish hnormal | symbol hnormal =>
    obtain ⟨_, _, hquarter⟩ := hnormal
    omega
  | lower hhalf | upper hhalf => omega
  | middle _ hcode =>
    exact ⟨(starts_dropSecond hs).1, ⟨_, hcode, (starts_dropSecond hs).2⟩, h.valid, by omega,
      by omega⟩

end Tracks

def expand (pending : ℕ) : List Bool → List Bool
  | [] => []
  | b :: rest => b :: (replicate pending (!b) ++ rest)

theorem expand_zero (bits : List Bool) : expand 0 bits = bits := by
  cases bits <;> rfl

theorem expand_succ (pending : ℕ) (b : Bool) (rest : List Bool) :
    expand (pending + 1) (b :: rest) = expand pending (b :: (!b) :: rest) := by
  rw [expand, expand, replicate_succ', append_assoc, singleton_append]

end ArithmeticCode
