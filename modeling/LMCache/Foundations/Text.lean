import Mathlib.Data.List.DropRight
import Mathlib.Tactic.IntervalCases

namespace LMCache

open List

structure UnicodeDigits where
  decimal : Char → Option ℕ
  isDigit : Char → Bool

variable {u : UnicodeDigits}

namespace Text

def isSpace (c : Char) : Bool :=
  (9 ≤ c.toNat && c.toNat ≤ 13) || (28 ≤ c.toNat && c.toNat ≤ 32) || c.toNat == 0x85 ||
    c.toNat == 0xa0 || c.toNat == 0x1680 || (0x2000 ≤ c.toNat && c.toNat ≤ 0x200a) ||
    c.toNat == 0x2028 || c.toNat == 0x2029 || c.toNat == 0x202f || c.toNat == 0x205f ||
    c.toNat == 0x3000

def stripOf (p : Char → Bool) (s : List Char) : List Char := (s.dropWhile p).rdropWhile p

def strip (s : List Char) : List Char := stripOf isSpace s

def isDigitStr (u : UnicodeDigits) (s : List Char) : Bool :=
  !s.isEmpty && s.all fun c => if c.toNat < 128 then c.isDigit else u.isDigit c

end Text

namespace Numeral

open Text

def digitValue (u : UnicodeDigits) (c : Char) : Option ℕ :=
  if '0' ≤ c ∧ c ≤ '9' then some (c.toNat - '0'.toNat)
  else if 'a' ≤ c ∧ c ≤ 'z' then some (c.toNat - 'a'.toNat + 10)
  else if 'A' ≤ c ∧ c ≤ 'Z' then some (c.toNat - 'A'.toNat + 10)
  else if c.toNat < 128 then none
  else u.decimal c

def readDigits (u : UnicodeDigits) (base : ℕ) : List Char → ℕ → Bool → Option ℕ
  | [], acc, afterDigit => if afterDigit then some acc else none
  | c :: cs, acc, afterDigit =>
      if c = '_' then
        if afterDigit then readDigits u base cs acc false else none
      else
        match digitValue u c with
        | some d => if d < base then readDigits u base cs (base * acc + d) true else none
        | none => none

def dropHexPrefix (base : ℕ) (s : List Char) : List Char :=
  match s with
  | '0' :: x :: cs =>
      if base = 16 ∧ (x = 'x' ∨ x = 'X') then
        match cs with
        | '_' :: rest => rest
        | _ => cs
      else s
  | _ => s

def isIntSpace (c : Char) : Bool := isSpace c && !(28 ≤ c.toNat && c.toNat ≤ 31)

def parseInt (u : UnicodeDigits) (base : ℕ) (s : List Char) : Option ℤ :=
  match stripOf isIntSpace s with
  | '-' :: cs => (readDigits u base (dropHexPrefix base cs) 0 false).map fun k : ℕ => -(k : ℤ)
  | '+' :: cs => (readDigits u base (dropHexPrefix base cs) 0 false).map fun k : ℕ => (k : ℤ)
  | cs => (readDigits u base (dropHexPrefix base cs) 0 false).map fun k : ℕ => (k : ℤ)

def formatInt (base : ℕ) (n : ℤ) : List Char :=
  if n < 0 then '-' :: Nat.toDigits base n.natAbs else Nat.toDigits base n.natAbs

end Numeral

namespace Text

theorem notMem_of_mem_splitOn {s part : List Char} {c : Char} (h : part ∈ s.splitOn c) :
    c ∉ part := by
  induction s generalizing part with
  | nil =>
    rw [splitOn_nil, mem_singleton] at h
    rw [h]
    exact not_mem_nil
  | cons x s ih =>
    rw [splitOn_cons_eq_if_modifyHead] at h
    split at h
    · rcases mem_cons.mp h with rfl | hmem
      · exact not_mem_nil
      · exact ih hmem
    · next hx =>
      obtain ⟨head, tail, heq⟩ := exists_cons_of_ne_nil (splitOn_ne_nil c s)
      rw [heq, modifyHead_cons] at h
      rcases mem_cons.mp h with rfl | hmem
      · rw [mem_cons, not_or]
        exact ⟨fun hc => hx (by simp [hc]), ih (by rw [heq]; exact mem_cons_self)⟩
      · exact ih (by rw [heq]; exact mem_cons_of_mem _ hmem)

theorem intercalate_cons_eq_flatMap (c : Char) (text : List Char) (texts : List (List Char)) :
    [c].intercalate (text :: texts) = text ++ texts.flatMap fun text => c :: text := by
  induction texts generalizing text with
  | nil => rw [intercalate_singleton, flatMap_nil, append_nil]
  | cons text' texts ih =>
    rw [intercalate_cons_cons, ih text', flatMap_cons, append_assoc, singleton_append, cons_append]

def weight (parts : List (List Char)) : ℕ := (parts.map fun part => part.length + 1).sum

theorem weight_append (parts parts' : List (List Char)) :
    weight (parts ++ parts') = weight parts + weight parts' := by
  rw [weight, map_append, sum_append]
  rfl

theorem weight_cons (part : List Char) (parts : List (List Char)) :
    weight (part :: parts) = part.length + 1 + weight parts := rfl

theorem length_intercalate {c : Char} {parts : List (List Char)} (hne : parts ≠ []) :
    ([c].intercalate parts).length + 1 = weight parts := by
  obtain ⟨part, rest, rfl⟩ := exists_cons_of_ne_nil hne
  rw [intercalate_cons_eq_flatMap, length_append, length_flatMap, weight_cons, weight]
  simp only [length_cons]
  omega

variable {p : Char → Bool} {s : List Char}

theorem stripOf_eq_self (h : ∀ c ∈ s, p c = false) : stripOf p s = s := by
  have hleft : s.dropWhile p = s := by
    cases s with
    | nil => rfl
    | cons c cs => exact dropWhile_cons_of_neg (by simp [h c mem_cons_self])
  rw [stripOf, hleft, rdropWhile_eq_self_iff]
  intro hne
  rw [h _ (getLast_mem hne)]
  exact Bool.false_ne_true

variable {xs ys : List Char} {c : Char}

theorem rdropWhile_append_cons (h : p c = false) :
    (xs ++ c :: ys).rdropWhile p = xs ++ c :: ys.rdropWhile p := by
  induction ys using reverseRecOn with
  | nil => rw [rdropWhile_concat_neg _ _ _ (by simp [h]), rdropWhile_nil]
  | append_singleton ys y ih =>
    have hassoc : xs ++ c :: (ys ++ [y]) = (xs ++ c :: ys) ++ [y] := by simp
    rw [hassoc]
    cases hy : p y with
    | true =>
      rw [rdropWhile_concat_pos _ _ _ hy, rdropWhile_concat_pos _ _ _ hy]
      exact ih
    | false =>
      rw [rdropWhile_concat_neg _ _ _ (by simp [hy]),
        rdropWhile_concat_neg _ _ _ (by simp [hy]), hassoc]

theorem dropWhile_append_cons (h : p c = false) :
    (xs ++ c :: ys).dropWhile p = xs.dropWhile p ++ c :: ys := by
  induction xs with
  | nil => exact dropWhile_cons_of_neg (by simp [h])
  | cons x xs ih =>
    cases hx : p x with
    | true => rw [cons_append, dropWhile_cons_of_pos hx, ih, dropWhile_cons_of_pos hx]
    | false => rw [cons_append, dropWhile_cons_of_neg (by simp [hx]),
        dropWhile_cons_of_neg (by simp [hx]), cons_append]

theorem stripOf_append_cons (h : p c = false) :
    stripOf p (xs ++ c :: ys) = xs.dropWhile p ++ c :: ys.rdropWhile p := by
  rw [stripOf, dropWhile_append_cons h, rdropWhile_append_cons h]

theorem notMem_rdropWhile (h : c ∉ s) :
    c ∉ s.rdropWhile p := fun hmem => h ((List.rdropWhile_prefix p s).subset hmem)

theorem notMem_dropWhile (h : c ∉ s) :
    c ∉ s.dropWhile p := fun hmem => h ((dropWhile_suffix p).subset hmem)

section Parts

variable {p : Char → Bool} {c : Char} (hc : p c = false)

include hc

variable {parts : List (List Char)}

theorem getElem?_splitOn_rdropWhile (hne : parts ≠ []) (hparts : ∀ part ∈ parts, c ∉ part) (i : ℕ) :
    ((([c].intercalate parts).rdropWhile p).splitOn c)[i]? =
      if i + 1 = parts.length then parts[i]?.map (rdropWhile p) else parts[i]? := by
  induction parts generalizing i with
  | nil => exact absurd rfl hne
  | cons part parts ih =>
    have hpart : c ∉ part := hparts part mem_cons_self
    cases parts with
    | nil =>
      rw [intercalate_singleton, splitOn_eq_singleton (notMem_rdropWhile hpart)]
      cases i with
      | zero => rfl
      | succ i => rfl
    | cons part' parts =>
      rw [intercalate_cons_cons, append_assoc, singleton_append,
        rdropWhile_append_cons hc, splitOn_append_cons_self_of_not_mem hpart]
      cases i with
      | zero => rfl
      | succ i =>
        rw [getElem?_cons_succ, getElem?_cons_succ, length_cons,
          ih (cons_ne_nil _ _) (fun q hq => hparts q (mem_cons_of_mem _ hq))]
        simp only [Nat.add_right_cancel_iff]

theorem getElem?_splitOn_stripOf (hparts : ∀ part ∈ parts, c ∉ part) (i : ℕ) :
    ((stripOf p ([c].intercalate parts)).splitOn c)[i + 1]? =
      if i + 2 = parts.length then parts[i + 1]?.map (rdropWhile p) else parts[i + 1]? := by
  cases parts with
  | nil => rfl
  | cons part parts =>
    have hpart : c ∉ part := hparts part mem_cons_self
    cases parts with
    | nil =>
      rw [intercalate_singleton, stripOf,
        splitOn_eq_singleton (notMem_rdropWhile (notMem_dropWhile hpart))]
      rfl
    | cons part' parts =>
      have hlast : i + 2 = (part' :: parts).length + 1 ↔ i + 1 = (part' :: parts).length := by
        omega
      rw [intercalate_cons_cons, append_assoc, singleton_append,
        stripOf_append_cons hc, splitOn_append_cons_self_of_not_mem (notMem_dropWhile hpart),
        getElem?_cons_succ, getElem?_cons_succ, length_cons,
        getElem?_splitOn_rdropWhile hc (cons_ne_nil _ _)
          (fun q hq => hparts q (mem_cons_of_mem _ hq))]
      simp only [hlast]

end Parts

theorem mem_rdropWhile_of_mem (h : c ∈ s) (hc : p c = false) : c ∈ s.rdropWhile p := by
  obtain ⟨xs, ys, rfl⟩ := append_of_mem h
  rw [rdropWhile_append_cons hc]
  exact mem_append_right _ mem_cons_self

theorem isDigitStr_of_forall (hne : s ≠ []) (h : ∀ c ∈ s, c.isDigit = true) :
    isDigitStr u s = true := by
  rw [isDigitStr, Bool.and_eq_true]
  refine ⟨by simpa using hne, ?_⟩
  rw [all_eq_true]
  intro c hc
  have hdigit := h c hc
  have hrange := hdigit
  simp only [Char.isDigit, Bool.and_eq_true, decide_eq_true_eq] at hrange
  have hle : c.toNat ≤ 57 := hrange.2
  rw [if_pos (by omega)]
  exact hdigit

theorem isDigitStr_eq_false_of_mem (hc : c ∈ s) (hascii : c.toNat < 128)
    (hdigit : c.isDigit = false) : isDigitStr u s = false := by
  rw [isDigitStr, Bool.and_eq_false_iff]
  refine Or.inr ?_
  rw [all_eq_false]
  exact ⟨c, hc, by simp [hascii, hdigit]⟩

end Text

namespace Numeral

open Text

theorem exists_digitChar_of_mem_toDigits {base n : ℕ} {c : Char} (hbase : 1 < base)
    (h : c ∈ Nat.toDigits base n) : ∃ d, d < base ∧ c = Nat.digitChar d := by
  induction n using Nat.strongRecOn with
  | ind n ih =>
    rw [Nat.toDigits_eq_if hbase] at h
    split at h
    · next hlt => exact ⟨n, hlt, mem_singleton.mp h⟩
    · next hle =>
      rcases mem_append.mp h with hmem | hmem
      · exact ih (n / base) (Nat.div_lt_self (by omega) hbase) hmem
      · exact ⟨n % base, Nat.mod_lt n (by omega), mem_singleton.mp hmem⟩

theorem digitValue_digitChar {d : ℕ} (h : d < 16) : digitValue u (Nat.digitChar d) = some d := by
  interval_cases d <;> rfl

theorem digitChar_ne {d : ℕ} (h : d < 16) :
    Nat.digitChar d ≠ '_' ∧ Nat.digitChar d ≠ '-' ∧ Nat.digitChar d ≠ '+' ∧
      Nat.digitChar d ≠ 'x' ∧ Nat.digitChar d ≠ 'X' ∧ Nat.digitChar d ≠ '@' ∧
      Nat.digitChar d ≠ '%' ∧ isSpace (Nat.digitChar d) = false := by
  interval_cases d <;> decide

theorem readDigits_digitChar_cons {base d acc : ℕ} {cs : List Char} {afterDigit : Bool}
    (hbase : base ≤ 16) (hd : d < base) :
    readDigits u base (Nat.digitChar d :: cs) acc afterDigit =
      readDigits u base cs (base * acc + d) true := by
  rw [readDigits, if_neg (digitChar_ne (Nat.lt_of_lt_of_le hd hbase)).1,
    digitValue_digitChar (Nat.lt_of_lt_of_le hd hbase)]
  exact if_pos hd

theorem readDigits_toDigits_append {base : ℕ} (hone : 1 < base) (hbase : base ≤ 16) (n : ℕ)
    (cs : List Char) (afterDigit : Bool) :
    readDigits u base (Nat.toDigits base n ++ cs) 0 afterDigit = readDigits u base cs n true := by
  induction n using Nat.strongRecOn generalizing cs with
  | ind n ih =>
    rw [Nat.toDigits_eq_if hone]
    split
    · next hlt =>
      rw [singleton_append, readDigits_digitChar_cons hbase hlt, Nat.mul_zero, Nat.zero_add]
    · next hle =>
      rw [append_assoc, singleton_append, ih (n / base) (Nat.div_lt_self (by omega) hone),
        readDigits_digitChar_cons hbase (Nat.mod_lt n (by omega)), Nat.div_add_mod]

theorem readDigits_toDigits {base : ℕ} (hone : 1 < base) (hbase : base ≤ 16) (n : ℕ) :
    readDigits u base (Nat.toDigits base n) 0 false = some n := by
  have h := readDigits_toDigits_append (u := u) hone hbase n [] false
  rw [append_nil] at h
  exact h

theorem dropHexPrefix_toDigits {base : ℕ} (hone : 1 < base) (hbase : base ≤ 16) (n : ℕ) :
    dropHexPrefix base (Nat.toDigits base n) = Nat.toDigits base n := by
  unfold dropHexPrefix
  split
  · next x cs heq =>
    obtain ⟨d, hd, rfl⟩ := exists_digitChar_of_mem_toDigits (c := x) (n := n) hone
      (by rw [heq]; simp)
    have hne := digitChar_ne (Nat.lt_of_lt_of_le hd hbase)
    exact if_neg fun hx => hx.2.elim hne.2.2.2.1 hne.2.2.2.2.1
  · rfl

theorem isIntSpace_eq_false {c : Char} (h : isSpace c = false) : isIntSpace c = false := by
  rw [isIntSpace, h, Bool.false_and]

section FormatInt

variable {base : ℕ} (hone : 1 < base) (hbase : base ≤ 16)

include hone hbase

theorem mem_formatInt {n : ℤ} {c : Char} (h : c ∈ formatInt base n) :
    c = '-' ∨ ∃ d, d < 16 ∧ c = Nat.digitChar d := by
  have hdigit : c ∈ Nat.toDigits base n.natAbs → ∃ d, d < 16 ∧ c = Nat.digitChar d := by
    intro hmem
    obtain ⟨d, hd, rfl⟩ := exists_digitChar_of_mem_toDigits hone hmem
    exact ⟨d, Nat.lt_of_lt_of_le hd hbase, rfl⟩
  rw [formatInt] at h
  split at h
  · rcases mem_cons.mp h with rfl | hmem
    · exact Or.inl rfl
    · exact Or.inr (hdigit hmem)
  · exact Or.inr (hdigit h)

theorem isSpace_of_mem_formatInt {n : ℤ} {c : Char} (h : c ∈ formatInt base n) :
    isSpace c = false := by
  rcases mem_formatInt hone hbase h with rfl | ⟨d, hd, rfl⟩
  · rfl
  · exact (digitChar_ne hd).2.2.2.2.2.2.2

theorem at_not_mem_formatInt (n : ℤ) : '@' ∉ formatInt base n := by
  intro h
  rcases mem_formatInt hone hbase h with heq | ⟨d, hd, heq⟩
  · exact absurd heq (by decide)
  · exact (digitChar_ne hd).2.2.2.2.2.1 heq.symm

theorem parseInt_formatInt (u : UnicodeDigits) (n : ℤ) :
    parseInt u base (formatInt base n) = some n := by
  have hstrip : stripOf isIntSpace (formatInt base n) = formatInt base n :=
    stripOf_eq_self fun c hc => isIntSpace_eq_false (isSpace_of_mem_formatInt hone hbase hc)
  have hread := readDigits_toDigits (u := u) hone hbase n.natAbs
  have hdigits := dropHexPrefix_toDigits hone hbase n.natAbs
  rw [parseInt, hstrip, formatInt]
  by_cases hn : n < 0
  · simp only [if_pos hn]
    rw [hdigits, hread, Option.map_some, Option.some.injEq]
    omega
  · simp only [if_neg hn]
    have hhead : ∀ c cs, Nat.toDigits base n.natAbs = c :: cs → c ≠ '-' ∧ c ≠ '+' := by
      intro c cs heq
      obtain ⟨d, hd, rfl⟩ := exists_digitChar_of_mem_toDigits (c := c) (n := n.natAbs) hone
        (by rw [heq]; exact mem_cons_self)
      have hne := digitChar_ne (Nat.lt_of_lt_of_le hd hbase)
      exact ⟨hne.2.1, hne.2.2.1⟩
    split
    · next cs heq => exact absurd rfl (hhead _ _ heq).1
    · next cs heq => exact absurd rfl (hhead _ _ heq).2
    · rw [hdigits, hread, Option.map_some, Option.some.injEq]
      omega

end FormatInt

section Shortest

variable {u : UnicodeDigits} {base : ℕ} (hone : 1 < base)

theorem readDigits_lt {cs : List Char} {acc m : ℕ} {afterDigit : Bool}
    (h : readDigits u base cs acc afterDigit = some m) (hone : 1 < base) :
    m < (acc + 1) * base ^ cs.length := by
  induction cs generalizing acc afterDigit with
  | nil =>
    cases afterDigit with
    | true =>
      obtain rfl := Option.some.inj h
      simp
    | false => cases h
  | cons c cs ih =>
    have hgrow : (acc + 1) * base ^ cs.length ≤ (acc + 1) * base ^ (c :: cs).length :=
      Nat.mul_le_mul_left _ (Nat.pow_le_pow_right (by omega) (by simp))
    rw [readDigits] at h
    split at h
    · split at h
      · exact Nat.lt_of_lt_of_le (ih h) hgrow
      · cases h
    · split at h
      · next d hd =>
        split at h
        · next hlt =>
          have hstep : base * acc + d + 1 ≤ (acc + 1) * base := by
            rw [Nat.add_mul, Nat.one_mul, Nat.mul_comm acc base]
            omega
          calc m < (base * acc + d + 1) * base ^ cs.length := ih h
            _ ≤ (acc + 1) * base * base ^ cs.length := Nat.mul_le_mul_right _ hstep
            _ = (acc + 1) * base ^ (c :: cs).length := by
              rw [length_cons, Nat.pow_succ, Nat.mul_assoc, Nat.mul_comm base]
        · cases h
      · cases h

theorem length_dropHexPrefix_le (base : ℕ) (s : List Char) :
    (dropHexPrefix base s).length ≤ s.length := by
  unfold dropHexPrefix
  split
  · split
    · split
      · simp only [length_cons]
        omega
      · simp only [length_cons]
        omega
    · exact Nat.le_refl _
  · exact Nat.le_refl _

theorem length_stripOf_le (p : Char → Bool) (s : List Char) : (stripOf p s).length ≤ s.length :=
  Nat.le_trans (List.rdropWhile_prefix p _).length_le (dropWhile_suffix p).length_le

include hone

theorem length_toDigits_le {cs : List Char} {n : ℕ}
    (h : readDigits u base (dropHexPrefix base cs) 0 false = some n) :
    (Nat.toDigits base n).length ≤ cs.length := by
  have hne : 0 < (dropHexPrefix base cs).length := by
    rw [length_pos_iff]
    intro hnil
    rw [hnil] at h
    cases h
  have hlt := readDigits_lt h hone
  rw [Nat.zero_add, Nat.one_mul, ← Nat.length_toDigits_le_iff hone hne] at hlt
  exact Nat.le_trans hlt (length_dropHexPrefix_le base cs)

theorem length_formatInt_le {s : List Char} {n : ℤ} (h : parseInt u base s = some n) :
    (formatInt base n).length ≤ s.length := by
  refine Nat.le_trans ?_ (length_stripOf_le isIntSpace s)
  have hsign : ∀ k : ℕ, (formatInt base (k : ℤ)).length = (Nat.toDigits base k).length := by
    intro k
    rw [formatInt, if_neg (by omega), Int.natAbs_natCast]
  have hnegative : ∀ k : ℕ,
      (formatInt base (-(k : ℤ))).length ≤ (Nat.toDigits base k).length + 1 := by
    intro k
    rw [formatInt, Int.natAbs_neg, Int.natAbs_natCast]
    split
    · exact Nat.le_refl _
    · exact Nat.le_succ _
  rw [parseInt] at h
  split at h
  · next cs heq =>
    obtain ⟨k, hread, rfl⟩ := Option.map_eq_some_iff.mp h
    rw [heq, length_cons]
    exact Nat.le_trans (hnegative k) (Nat.add_le_add_right (length_toDigits_le hone hread) 1)
  · next cs heq =>
    obtain ⟨k, hread, rfl⟩ := Option.map_eq_some_iff.mp h
    rw [heq, hsign, length_cons]
    exact Nat.le_trans (length_toDigits_le hone hread) (Nat.le_succ _)
  · obtain ⟨k, hread, rfl⟩ := Option.map_eq_some_iff.mp h
    rw [hsign]
    exact length_toDigits_le hone hread

end Shortest

theorem isDigitStr_formatInt_ten {n : ℤ} : isDigitStr u (formatInt 10 n) = true ↔ 0 ≤ n := by
  constructor
  · intro h
    by_contra hn
    rw [formatInt, if_pos (by omega),
      isDigitStr_eq_false_of_mem mem_cons_self (by decide) (by decide)] at h
    cases h
  · intro hn
    rw [formatInt, if_neg (by omega)]
    exact isDigitStr_of_forall Nat.toDigits_ne_nil
      fun c hc => Nat.isDigit_of_mem_toDigits (by decide) (by decide) hc

end Numeral

end LMCache
