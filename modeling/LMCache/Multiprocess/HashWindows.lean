import LMCache.Foundations.Loops
import LMCache.Multiprocess.BlendMatcher

namespace LMCache

open Loops RollingHash List Slice Nat Option

namespace HashWindows

def npEmpty (memory : ℕ → BitVec 64) (length : ℕ) : List (BitVec 64) :=
  (range length).map memory

variable (arr : List (BitVec 64))

def absorb (base h : BitVec 64) (i : ℕ) : Option (BitVec 64) :=
  (arr[i]?).map fun x => h * base + x

def multiplyPower (base power : BitVec 64) (_ : ℕ) : Option (BitVec 64) := some (power * base)

structure RollingState where
  h : BitVec 64
  j : ℕ
  out : List (BitVec 64)

def rollWindow (k : ℕ) (base power : BitVec 64) (s : RollingState) (i : ℕ) :
    Option RollingState := do
  let old ← arr[i - k]?
  let new ← arr[i]?
  let h := s.h - old * power
  let h := h * base + new
  let out ← write s.out s.j h
  return ⟨h, s.j + 1, out⟩

def rollingHashWindowsNumba (memory : ℕ → BitVec 64) (arr : List (BitVec 64)) (k : ℕ)
    (base : BitVec 64) : Option (List (BitVec 64)) := do
  let n := arr.length
  let out := npEmpty memory (n - k + 1)
  let power ← forRange 0 (k - 1) (multiplyPower base) 1
  let h ← forRange 0 k (absorb arr base) 0
  let out ← write out 0 h
  let s ← forRange k (n - k) (rollWindow arr k base power) ⟨h, 1, out⟩
  return s.out

def hashBlock (k : ℕ) (base : BitVec 64) (out : List (BitVec 64)) (w : ℕ) :
    Option (List (BitVec 64)) := do
  let start := w * k
  let h ← forRange start k (absorb arr base) 0
  write out w h

def chunkHashWindowsNumba (memory : ℕ → BitVec 64) (arr : List (BitVec 64)) (k : ℕ)
    (base : BitVec 64) : Option (List (BitVec 64)) :=
  let n := arr.length
  let numWindows := n / k
  forRange 0 numWindows (hashBlock arr k base) (npEmpty memory numWindows)

variable (arr : List (BitVec 64)) (base : BitVec 64)

def windowHash (k j : ℕ) : BitVec 64 := polyHash base (slice arr j (j + k))

variable (memory : ℕ → BitVec 64)

theorem length_npEmpty (length : ℕ) : (npEmpty memory length).length = length := by
  rw [npEmpty, length_map, length_range]

theorem power_eq (count : ℕ) : forRange 0 count (multiplyPower base) 1 = some (base ^ count) := by
  apply forRange_eq _ (fun i => base ^ i)
  intro i _
  rw [multiplyPower, pow_succ]

variable {start stop : ℕ}

theorem slice_concat (hle : start ≤ stop) (h : stop < arr.length) :
    slice arr start (stop + 1) = slice arr start stop ++ [arr[stop]] := by
  rw [slice, take_succ_eq_append_getElem h, drop_append_of_le_length, slice]
  rw [length_take_of_le (le_of_lt h)]
  exact hle

theorem slice_cons (hstart : start < arr.length) (hlt : start < stop) (h : stop ≤ arr.length) :
    slice arr start stop = arr[start] :: slice arr (start + 1) stop := by
  have hlength : start < (arr.take stop).length := by
    rw [length_take_of_le h]
    exact hlt
  rw [slice, drop_eq_getElem_cons hlength, getElem_take, slice]

theorem absorb_eq {start k : ℕ} (h : start + k ≤ arr.length) :
    forRange start k (absorb arr base) 0 = some (windowHash arr base k start) := by
  have hempty : polyHash base (slice arr start (start + 0)) = 0 := by
    rw [slice, add_zero, drop_eq_nil_of_le (length_take_le _ _)]
    rfl
  have hloop := forRange_eq (absorb arr base)
    (fun i => polyHash base (slice arr start (start + i))) start k (by
      intro i hi
      have hlt : start + i < arr.length := by omega
      rw [absorb, getElem?_eq_getElem hlt, map_some, ← polyHash_concat,
        ← slice_concat arr (le_add_right start i) hlt, add_assoc])
  rw [hempty] at hloop
  exact hloop

variable {k j : ℕ}

theorem windowHash_succ (hpos : 0 < k) (h : j + k < arr.length) :
    windowHash arr base k (j + 1) =
      (windowHash arr base k j - arr[j] * base ^ (k - 1)) * base + arr[j + k] := by
  have hlt : j < j + k := Nat.lt_add_of_pos_right hpos
  have hslice := slice_cons arr (lt_trans hlt h) hlt (le_of_lt h)
  have hlength : (slice arr (j + 1) (j + k)).length = k - 1 := by
    rw [length_slice arr (le_of_lt h)]
    omega
  rw [windowHash, windowHash, hslice, ← hlength, rolled_eq, add_right_comm j 1 k,
    slice_concat arr (by omega) h]

theorem rollWindow_eq (hpos : 0 < k) (h : j + k < arr.length) {fresh : List (BitVec 64)}
    (hfresh : j + 1 < fresh.length) :
    rollWindow arr k base (base ^ (k - 1))
        ⟨windowHash arr base k j, j + 1, filling (windowHash arr base k) fresh (j + 1)⟩ (k + j) =
      some ⟨windowHash arr base k (j + 1), j + 2,
        filling (windowHash arr base k) fresh (j + 2)⟩ := by
  have hold : arr[k + j - k]? = some arr[j] := by
    rw [Nat.add_sub_cancel_left]
    exact getElem?_eq_getElem (by omega)
  have hnew : arr[k + j]? = some arr[j + k] := by
    rw [add_comm k j]
    exact getElem?_eq_getElem h
  rw [rollWindow, hold, hnew]
  simp only [bind_eq_bind, bind_some, ← windowHash_succ arr base hpos h,
    write_filling (windowHash arr base k) hfresh]
  rfl

theorem rollingHashWindows_eq {k : ℕ} (hpos : 0 < k) (h : k ≤ arr.length) :
    rollingHashWindowsNumba memory arr k base =
      some ((range (arr.length - k + 1)).map (windowHash arr base k)) := by
  have hfresh := length_npEmpty memory (arr.length - k + 1)
  have hzero : 0 + k ≤ arr.length := by omega
  have hentry : 0 < (npEmpty memory (arr.length - k + 1)).length := by omega
  have hfirst := write_filling (windowHash arr base k) hentry
  rw [filling_zero] at hfirst
  have hloop := forRange_eq (rollWindow arr k base (base ^ (k - 1)))
    (fun j => (⟨windowHash arr base k j, j + 1, filling (windowHash arr base k)
      (npEmpty memory (arr.length - k + 1)) (j + 1)⟩ : RollingState)) k (arr.length - k)
    (fun j hj => rollWindow_eq arr base hpos (by omega) (by omega))
  have hfull := filling_length (windowHash arr base k) (npEmpty memory (arr.length - k + 1))
  rw [hfresh] at hfull
  simp only [rollingHashWindowsNumba, power_eq, absorb_eq arr base hzero, bind_eq_bind,
    bind_some, hfirst, hloop, hfull]
  rfl

theorem chunkHashWindows_eq (k : ℕ) :
    chunkHashWindowsNumba memory arr k base =
      some ((range (arr.length / k)).map fun w => windowHash arr base k (w * k)) := by
  have hfresh := length_npEmpty memory (arr.length / k)
  have hfull := filling_length (fun w => windowHash arr base k (w * k))
    (npEmpty memory (arr.length / k))
  rw [hfresh] at hfull
  rw [chunkHashWindowsNumba, ← hfull]
  apply forRange_eq _ (filling (fun w => windowHash arr base k (w * k))
    (npEmpty memory (arr.length / k))) 0
  intro w hw
  have hle : w * k + k ≤ arr.length := by
    rw [← succ_mul]
    exact (mul_le_mul_right k hw).trans (div_mul_le_self _ _)
  rw [zero_add, hashBlock, absorb_eq arr base hle]
  exact write_filling (fun w => windowHash arr base k (w * k)) (by omega)

theorem rollingHashWindowsNumba_eq_blend {k : ℕ} (hpos : 0 < k) (h : k ≤ arr.length) :
    rollingHashWindowsNumba memory arr k base =
      some (BlendHash.rollingHashWindowsNumba arr k base) := by
  rw [rollingHashWindows_eq arr base memory hpos h, BlendHash.rollingHashWindowsNumba,
    rollingHashes_eq base hpos h, windows, List.map_map, Nat.sub_add_comm h]
  rfl

theorem chunkHashWindowsNumba_eq_blend (k : ℕ) :
    chunkHashWindowsNumba memory arr k base = some (BlendHash.chunkHashWindowsNumba arr k base) :=
  chunkHashWindows_eq arr base memory k

theorem windowHash_eq_sum (h : j + k ≤ arr.length) :
    windowHash arr base k j = ∑ i ∈ Finset.range k, arr.getD (j + i) 0 * base ^ (k - 1 - i) := by
  have hlength : (slice arr j (j + k)).length = k := by
    rw [length_slice arr h, Nat.add_sub_cancel_left]
  rw [windowHash, polyHash_eq_sum, hlength]
  apply Finset.sum_congr rfl
  intro i hi
  have hlt : j + i < j + k := Nat.add_lt_add_left (Finset.mem_range.mp hi) j
  rw [getD_eq_getElem?_getD, getElem?_slice, if_pos hlt, getD_eq_getElem?_getD]

theorem contains_updateTableId (hashes : List (BitVec 64)) (tableId : Dict ℕ ℕ) (ids : List ℕ)
    (hlength : hashes.length ≤ ids.length) (hash : BitVec 64)
    (h : hash ∈ hashes ∨ tableId.contains (BlendHash.tableIndex hash)) :
    (BlendHash.updateTableIdNumba hashes tableId ids).contains (BlendHash.tableIndex hash) := by
  induction hashes generalizing tableId ids with
  | nil => exact h.resolve_left not_mem_nil
  | cons first hashes ih =>
    cases ids with
    | nil => exact absurd hlength (not_succ_le_zero _)
    | cons id ids =>
      apply ih _ ids (le_of_succ_le_succ hlength)
      rcases h with hmem | hold
      · rcases mem_cons.mp hmem with rfl | hlater
        · right
          simp [Dict.contains]
        · exact .inl hlater
      · right
        simp only [Dict.contains, Dict.get?_set] at hold ⊢
        split_ifs
        · rfl
        · exact hold

theorem rolling_eq_direct (memory chunkMemory : ℕ → BitVec 64) {k : ℕ} (hpos : 1 ≤ k)
    (h : k ≤ arr.length) :
    ∃ rolling chunks, rollingHashWindowsNumba memory arr k base = some rolling ∧
      chunkHashWindowsNumba chunkMemory arr k base = some chunks ∧
      rolling.length = arr.length - k + 1 ∧ chunks.length = arr.length / k ∧
      (∀ j, j ≤ arr.length - k → rolling[j]? =
        some (∑ i ∈ Finset.range k, arr.getD (j + i) 0 * base ^ (k - 1 - i))) ∧
      (∀ w, w < arr.length / k → rolling[w * k]? = chunks[w]?) ∧
      ∀ w, w < arr.length / k → ∀ queryMemory query j,
        slice query j (j + k) = slice arr (w * k) (w * k + k) →
        ∃ queryRolling hash, rollingHashWindowsNumba queryMemory query k base = some queryRolling ∧
          queryRolling[j]? = some hash ∧ chunks[w]? = some hash ∧
          ∀ tableId ids, ids.length = chunks.length →
            (BlendHash.updateTableIdNumba chunks tableId ids).contains
              (BlendHash.tableIndex hash) := by
  have hblock : ∀ w, w < arr.length / k → w * k + k ≤ arr.length := by
    intro w hw
    rw [← succ_mul]
    exact (mul_le_mul_right k hw).trans (div_mul_le_self _ _)
  have hentry : ∀ xs : List (BitVec 64), ∀ j, j < xs.length - k + 1 →
      ((range (xs.length - k + 1)).map (windowHash xs base k))[j]? =
        some (windowHash xs base k j) := by
    intro xs j hj
    rw [getElem?_map, getElem?_range hj, map_some]
  have hchunk : ∀ w, w < arr.length / k →
      ((range (arr.length / k)).map fun w => windowHash arr base k (w * k))[w]? =
        some (windowHash arr base k (w * k)) := by
    intro w hw
    rw [getElem?_map, getElem?_range hw, map_some]
  refine ⟨_, _, rollingHashWindows_eq arr base memory hpos h,
    chunkHashWindows_eq arr base chunkMemory k, ?_, ?_, ?_, ?_, ?_⟩
  · rw [length_map, length_range]
  · rw [length_map, length_range]
  · intro j hj
    rw [hentry arr j (by omega), windowHash_eq_sum arr base (by omega)]
  · intro w hw
    have hle := hblock w hw
    rw [hentry arr (w * k) (by omega), hchunk w hw]
  · intro w hw queryMemory query j hslice
    have hsame : windowHash query base k j = windowHash arr base k (w * k) := by
      rw [windowHash, windowHash, hslice]
    have hlength := congrArg length hslice
    rw [length_slice arr (hblock w hw), slice, length_drop, length_take] at hlength
    have hfits : j + k ≤ query.length := by omega
    refine ⟨_, windowHash query base k j,
      rollingHashWindows_eq query base queryMemory hpos (by omega), hentry query j (by omega), ?_, ?_⟩
    · rw [hchunk w hw, hsame]
    · intro tableId ids hids
      apply contains_updateTableId _ tableId ids (le_of_eq hids.symm)
      left
      rw [hsame]
      exact mem_of_getElem? (hchunk w hw)

theorem rolling_eq_direct_digits :
    rollingHashWindowsNumba (fun _ => 0) [3, 1, 4, 1, 5] 2 10 = some [31, 14, 41, 15] ∧
      ∃ chunks, chunkHashWindowsNumba (fun _ => 0) [3, 1, 4, 1, 5] 2 10 = some chunks ∧
        chunks[1]? = some 41 := by
  obtain ⟨rolling, chunks, hrolling, hchunks, -, -, -, hsame, -⟩ :=
    rolling_eq_direct [3, 1, 4, 1, 5] 10 (fun _ => 0) (fun _ => 0) (k := 2) (by decide) (by decide)
  have hdigits : rollingHashWindowsNumba (fun _ => 0) [3, 1, 4, 1, 5] 2 10 =
      some [31, 14, 41, 15] := by decide +kernel
  rw [hdigits] at hrolling
  obtain rfl := some.inj hrolling
  exact ⟨hdigits, chunks, hchunks, (hsame 1 (by decide)).symm⟩

end HashWindows

end LMCache
