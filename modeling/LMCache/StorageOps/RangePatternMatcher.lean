import LMCache.Foundations.Loops
import Mathlib.Data.BitVec

namespace LMCache

open GreedyRanges List Nat

structure RangePatternMatcher where
  startPattern : List ℤ
  endPattern : List ℤ
  startNonempty : startPattern ≠ []
  endNonempty : endPattern ≠ []

namespace RangePatternMatcher

def create (startPattern endPattern : List ℤ) : Except String RangePatternMatcher :=
  if hstart : startPattern = [] then .error "Start pattern cannot be empty"
  else if hend : endPattern = [] then .error "End pattern cannot be empty"
  else .ok ⟨startPattern, endPattern, hstart, hend⟩

def toInt (n : ℕ) : ℤ := (BitVec.ofNat 32 n).toInt

def compareFrom (data : List ℤ) (pos : ℕ) (pattern : List ℤ) : ℕ → ℕ → Option Bool
  | 0, _ => some true
  | remaining + 1, i =>
      match data[pos + i]?, pattern[i]? with
      | some x, some y =>
          if x ≠ y then some false else compareFrom data pos pattern remaining (i + 1)
      | _, _ => none

def matchesAt (data : List ℤ) (pos : ℕ) (pattern : List ℤ) : Option Bool :=
  if data.length < pos + pattern.length then some false
  else compareFrom data pos pattern pattern.length 0

def findEnd (m : RangePatternMatcher) (data : List ℤ) : ℕ → ℕ → Option (Option ℕ)
  | 0, _ => some none
  | remaining + 1, j =>
      (matchesAt data j m.endPattern).bind fun found =>
        if found then some (some j) else findEnd m data remaining (j + 1)

def scan (m : RangePatternMatcher) (data : List ℤ) :
    ℕ → ℕ → List (ℤ × ℤ) → Option (List (ℤ × ℤ))
  | turns, i, ranges =>
      if i ≤ data.length - m.startPattern.length then
        match turns with
        | 0 => none
        | turns + 1 =>
            (matchesAt data i m.startPattern).bind fun found =>
              if found then
                let searchStart := i + m.startPattern.length
                let remaining := data.length - m.endPattern.length + 1 - searchStart
                (m.findEnd data remaining searchStart).bind fun foundEnd =>
                  match foundEnd with
                  | some j =>
                      scan m data turns (j + m.endPattern.length)
                        (ranges ++ [(toInt i, toInt (j + m.endPattern.length))])
                  | none => scan m data turns (i + m.startPattern.length) ranges
              else scan m data turns (i + 1) ranges
      else some ranges

def matchRanges (m : RangePatternMatcher) (data : List ℤ) (turns : ℕ) : Option (List (ℤ × ℤ)) :=
  if data.length < m.startPattern.length + m.endPattern.length then some []
  else m.scan data turns 0 []

theorem compareFrom_eq {data pattern : List ℤ} {pos : ℕ} (h : pos + pattern.length ≤ data.length)
    {remaining i : ℕ} (hi : i + remaining = pattern.length) :
    compareFrom data pos pattern remaining i =
      some (decide (pattern.drop i <+: data.drop (pos + i))) := by
  induction remaining generalizing i with
  | zero =>
    have hnil : pattern.drop i = [] := drop_eq_nil_of_le (by omega)
    rw [compareFrom, hnil]
    simp
  | succ remaining ih =>
    have hpattern : i < pattern.length := by omega
    have hdata : pos + i < data.length := by omega
    rw [compareFrom, getElem?_eq_getElem hdata, getElem?_eq_getElem hpattern]
    simp only [drop_eq_getElem_cons hpattern, drop_eq_getElem_cons hdata, cons_prefix_cons]
    split_ifs with hne
    · simp [Ne.symm hne]
    · have heq : pattern[i] = data[pos + i] := (not_not.mp hne).symm
      rw [ih (by omega), add_assoc]
      simp [heq]

theorem matchesAt_eq (data : List ℤ) (pos : ℕ) (pattern : List ℤ) :
    ∃ found, matchesAt data pos pattern = some found ∧
      (found = true ↔ Occurs pattern data pos) := by
  rw [matchesAt]
  split_ifs with hlong
  · refine ⟨false, rfl, fun h => by simp at h, fun h => ?_⟩
    exact absurd h.1 (not_le.mpr hlong)
  · have hfits := not_lt.mp hlong
    refine ⟨_, compareFrom_eq hfits (zero_add _), ?_⟩
    rw [decide_eq_true_eq, drop_zero, add_zero]
    exact ⟨fun h => ⟨hfits, h⟩, fun h => h.2⟩

variable (m : RangePatternMatcher) (data : List ℤ)

def FirstEnd (j : ℕ) : Option ℕ → Prop
  | some e => j ≤ e ∧ Occurs m.endPattern data e ∧
      ∀ e', j ≤ e' → e' < e → ¬ Occurs m.endPattern data e'
  | none => ∀ e, j ≤ e → ¬ Occurs m.endPattern data e

theorem findEnd_eq (remaining j : ℕ)
    (h : data.length + 1 ≤ j + remaining + m.endPattern.length) :
    ∃ found, m.findEnd data remaining j = some found ∧ m.FirstEnd data j found := by
  induction remaining generalizing j with
  | zero =>
    refine ⟨none, rfl, fun e he hoccurs => ?_⟩
    have hfits := hoccurs.1
    omega
  | succ remaining ih =>
    obtain ⟨found, hfound, hiff⟩ := matchesAt_eq data j m.endPattern
    rw [findEnd, hfound, Option.bind_some]
    cases found with
    | true =>
      refine ⟨some j, rfl, le_refl j, hiff.mp rfl, fun e' hfrom hlt => ?_⟩
      exact absurd hlt (not_lt.mpr hfrom)
    | false =>
      have hnot : ¬ Occurs m.endPattern data j := fun hoccurs => by simpa using hiff.mpr hoccurs
      obtain ⟨found, hrest, hfirst⟩ := ih (j + 1) (by omega)
      refine ⟨found, hrest, ?_⟩
      have hstep : ∀ e, j ≤ e → e = j ∨ j + 1 ≤ e := fun e he => by omega
      cases found with
      | none =>
        intro e he
        rcases hstep e he with rfl | hlater
        · exact hnot
        · exact hfirst e hlater
      | some e =>
        refine ⟨le_of_succ_le hfirst.1, hfirst.2.1, fun e' hfrom hlt => ?_⟩
        rcases hstep e' hfrom with rfl | hlater
        · exact hnot
        · exact hfirst.2.2 e' hlater hlt

def asInts (r : ℕ × ℕ) : ℤ × ℤ := (toInt r.1, toInt r.2)

theorem scan_eq (hfits : m.startPattern.length + m.endPattern.length ≤ data.length)
    (turns i : ℕ) (hturns : data.length ≤ i + turns) (ranges : List (ℤ × ℤ)) :
    ∃ greedy, Greedy m.startPattern m.endPattern data i greedy ∧
      m.scan data turns i ranges = some (ranges ++ greedy.map asInts) := by
  have hstart := length_pos_iff.mpr m.startNonempty
  have hend := length_pos_iff.mpr m.endNonempty
  induction turns generalizing i ranges with
  | zero =>
    have hout : ¬ i ≤ data.length - m.startPattern.length := by omega
    refine ⟨[], .done fun s hs hqualifies => ?_, ?_⟩
    · have hoccurs := hqualifies.1.1
      omega
    · rw [scan, if_neg hout, map_nil, append_nil]
  | succ turns ih =>
    rw [scan]
    split_ifs with hin
    · obtain ⟨found, hfound, hiff⟩ := matchesAt_eq data i m.startPattern
      rw [hfound, Option.bind_some]
      cases found with
      | false =>
        obtain ⟨greedy, hgreedy, hscan⟩ := ih (i + 1) (by omega) ranges
        refine ⟨greedy, hgreedy.skip (le_succ i) fun s hs hlt hqualifies => ?_, hscan⟩
        obtain rfl : s = i := by omega
        simpa using hiff.mpr hqualifies.1
      | true =>
        obtain ⟨foundEnd, hfoundEnd, hfirst⟩ := m.findEnd_eq data
          (data.length - m.endPattern.length + 1 - (i + m.startPattern.length))
          (i + m.startPattern.length) (by omega)
        simp only [if_true, hfoundEnd, Option.bind_some]
        cases foundEnd with
        | none =>
          obtain ⟨greedy, hgreedy, hscan⟩ := ih (i + m.startPattern.length) (by omega) ranges
          refine ⟨greedy, hgreedy.skip (by omega) fun s hs hlt hqualifies => ?_, hscan⟩
          obtain ⟨e, hbehind, hoccurs⟩ := hqualifies.2
          exact hfirst e (by omega) hoccurs
        | some e =>
          obtain ⟨hbehind, hoccurs, hnearest⟩ := hfirst
          obtain ⟨greedy, hgreedy, hscan⟩ := ih (e + m.endPattern.length) (by omega)
            (ranges ++ [(toInt i, toInt (e + m.endPattern.length))])
          refine ⟨(i, e + m.endPattern.length) :: greedy, .range (le_refl i) (hiff.mp rfl)
            (fun s hs hlt => absurd hlt (not_lt.mpr hs)) hbehind hoccurs hnearest hgreedy, ?_⟩
          refine hscan.trans ?_
          rw [append_assoc, map_cons]
          rfl
    · refine ⟨[], .done fun s hs hqualifies => ?_, ?_⟩
      · have hoccurs := hqualifies.1.1
        omega
      · rw [map_nil, append_nil]

theorem toInt_eq {n : ℕ} (h : n < 2 ^ 31) : toInt n = n := by
  rw [toInt, BitVec.toInt_eq_toNat_of_lt, BitVec.toNat_ofNat, mod_eq_of_lt (by omega)]
  rw [BitVec.toNat_ofNat]
  omega

theorem map_asInts {ranges : List (ℕ × ℕ)} (h : ∀ r ∈ ranges, r.1 < 2 ^ 31 ∧ r.2 < 2 ^ 31) :
    ranges.map asInts = ranges.map fun r => ((r.1 : ℤ), (r.2 : ℤ)) := by
  apply map_congr_left
  intro r hr
  obtain ⟨hfrom, hto⟩ := h r hr
  rw [asInts, toInt_eq hfrom, toInt_eq hto]

theorem matchRanges_greedy :
    ∃ ranges, Greedy m.startPattern m.endPattern data 0 ranges ∧
      (∀ ranges', Greedy m.startPattern m.endPattern data 0 ranges' → ranges' = ranges) ∧
      (∀ turns, data.length ≤ turns → m.matchRanges data turns = some (ranges.map asInts)) ∧
      (data.length < 2 ^ 31 → ranges.map asInts = ranges.map fun r => ((r.1 : ℤ), (r.2 : ℤ))) ∧
      ranges.Pairwise (fun r r' => r.2 ≤ r'.1) ∧
      ∀ r ∈ ranges, r.1 + m.startPattern.length + m.endPattern.length ≤ r.2 ∧
        r.2 ≤ data.length := by
  have hgreedy : ∃ ranges, Greedy m.startPattern m.endPattern data 0 ranges ∧
      ∀ turns, data.length ≤ turns → m.matchRanges data turns = some (ranges.map asInts) := by
    rcases lt_or_ge data.length (m.startPattern.length + m.endPattern.length) with
      hshort | hfits
    · refine ⟨[], .done fun s hs hqualifies => ?_, fun turns _ => ?_⟩
      · obtain ⟨hoccurs, e, hbehind, hend⟩ := hqualifies
        have hstop := hend.1
        omega
      · rw [matchRanges, if_pos hshort, map_nil]
    · obtain ⟨ranges, hranges, -⟩ := m.scan_eq data hfits data.length 0 (by omega) []
      refine ⟨ranges, hranges, fun turns hturns => ?_⟩
      obtain ⟨ranges', hranges', hscan⟩ := m.scan_eq data hfits turns 0 (by omega) []
      rw [matchRanges, if_neg (not_lt.mpr hfits), hscan, hranges'.unique hranges, nil_append]
  obtain ⟨ranges, hranges, hmatch⟩ := hgreedy
  refine ⟨ranges, hranges, fun ranges' h => h.unique hranges, hmatch, fun hsmall => ?_,
    hranges.disjoint, fun r hr => (hranges.bounds r hr).2⟩
  apply map_asInts
  intro r hr
  obtain ⟨-, hlength, hstop⟩ := hranges.bounds r hr
  omega

example : (create [1, 1] [2]).toOption.bind (fun m => m.matchRanges [1, 1, 1, 2, 1, 1, 2] 7) =
    some [(0, 4), (4, 7)] := by decide

end RangePatternMatcher

end LMCache
