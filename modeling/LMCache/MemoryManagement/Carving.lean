import Mathlib.Tactic.Ring
import LMCache.MemoryManagement.FreeList

namespace LMCache

open Region SortedList

namespace AddressManager

def asRegion (p : ℕ × ℕ) : Region := ⟨p.1, p.2⟩

variable (a : ℕ)

def pieces (bs : List FreeBlock) (n : ℤ) : Carving := carve a bs ⟨n, [], [], []⟩

variable (n : ℤ) (b : FreeBlock)

def share : ℕ := (min n ((b.size / a : ℕ) : ℤ)).toNat

def slices (k : ℕ) : List (ℕ × ℕ) :=
  (List.range k).map (fun i => (b.start + i * a, a))

def tailOf (k : ℕ) : List FreeBlock :=
  if k * a < b.size then [⟨b.start + k * a, b.size - k * a⟩] else []

variable (bs : List FreeBlock)

theorem carve_pieces (c : Carving) :
    carve a bs c =
      { remaining := (pieces a bs c.remaining).remaining
        allocateResult := c.allocateResult ++ (pieces a bs c.remaining).allocateResult
        blocksToRemove := c.blocksToRemove ++ (pieces a bs c.remaining).blocksToRemove
        blocksToAdd := c.blocksToAdd ++ (pieces a bs c.remaining).blocksToAdd } := by
  induction bs generalizing c with
  | nil => simp [pieces, carve]
  | cons b bs ih =>
    simp only [pieces, carve]
    split_ifs with h1 h2 h3
    · simp
    · exact ih c
    · rw [ih, ih ⟨_, _, _, _⟩]
      simp
    · rw [ih, ih ⟨_, _, _, _⟩]
      simp

@[simp] theorem pieces_nil : pieces a [] n = ⟨n, [], [], []⟩ := rfl

theorem pieces_done {a : ℕ} {bs : List FreeBlock} {n : ℤ} (h : n ≤ 0) :
    pieces a bs n = ⟨n, [], [], []⟩ := by
  cases bs with
  | nil => rfl
  | cons b bs => simp [pieces, carve, h]

theorem pieces_skip {a : ℕ} {b : FreeBlock} {bs : List FreeBlock} {n : ℤ} (hn : 0 < n)
    (hb : b.size < a) : pieces a (b :: bs) n = pieces a bs n := by
  simp [pieces, carve, not_le.mpr hn, hb]

theorem pieces_take {a : ℕ} {b : FreeBlock} {bs : List FreeBlock} {n : ℤ} (hn : 0 < n)
    (hb : a ≤ b.size) :
    pieces a (b :: bs) n =
      { remaining := (pieces a bs (n - share a n b)).remaining
        allocateResult := slices a b (share a n b) ++
          (pieces a bs (n - share a n b)).allocateResult
        blocksToRemove := b :: (pieces a bs (n - share a n b)).blocksToRemove
        blocksToAdd := tailOf a b (share a n b) ++
          (pieces a bs (n - share a n b)).blocksToAdd } := by
  conv_lhs => simp only [pieces, carve, if_neg (not_le.mpr hn), if_neg (not_lt.mpr hb)]
  rw [carve_pieces]
  rfl

def carved (a : ℕ) : ℤ → List FreeBlock → List FreeBlock
  | _, [] => []
  | n, b :: bs =>
      if n ≤ 0 then b :: bs
      else if b.size < a then b :: carved a n bs
      else tailOf a b (share a n b) ++ carved a (n - share a n b) bs

theorem share_mul_le : share a n b * a ≤ b.size := by
  have h : share a n b ≤ b.size / a := by
    simp only [share]
    generalize b.size / a = q
    omega
  exact (Nat.mul_le_mul_right a h).trans (Nat.div_mul_le_self _ _)

theorem mem_tailOf {a k : ℕ} {b t : FreeBlock} (h : t ∈ tailOf a b k) :
    t = ⟨b.start + k * a, b.size - k * a⟩ ∧ k * a < b.size := by
  simp only [tailOf] at h
  split_ifs at h with hk
  · exact ⟨List.mem_singleton.mp h, hk⟩
  · simp at h

theorem blocksToRemove_subset {a : ℕ} {bs : List FreeBlock} {n : ℤ} :
    ∀ b ∈ (pieces a bs n).blocksToRemove, b ∈ bs := by
  induction bs generalizing n with
  | nil => simp
  | cons c bs ih =>
    intro b hb
    by_cases hn : n ≤ 0
    · simp [pieces_done hn] at hb
    · by_cases hc : c.size < a
      · rw [pieces_skip (not_le.mp hn) hc] at hb
        exact List.mem_cons_of_mem _ (ih b hb)
      · rw [pieces_take (not_le.mp hn) (not_lt.mp hc)] at hb
        rcases List.mem_cons.mp hb with rfl | hb
        · exact List.mem_cons_self
        · exact List.mem_cons_of_mem _ (ih b hb)

theorem blocksToAdd_start {a : ℕ} {bs : List FreeBlock} {n : ℤ} :
    ∀ t ∈ (pieces a bs n).blocksToAdd, ∃ b ∈ bs, b.start ≤ t.start := by
  induction bs generalizing n with
  | nil => simp
  | cons c bs ih =>
    intro t ht
    by_cases hn : n ≤ 0
    · simp [pieces_done hn] at ht
    · by_cases hc : c.size < a
      · rw [pieces_skip (not_le.mp hn) hc] at ht
        obtain ⟨b, hb, hle⟩ := ih t ht
        exact ⟨b, List.mem_cons_of_mem _ hb, hle⟩
      · rw [pieces_take (not_le.mp hn) (not_lt.mp hc)] at ht
        rcases List.mem_append.mp ht with ht | ht
        · obtain ⟨rfl, _⟩ := mem_tailOf ht
          exact ⟨c, by simp, Nat.le_add_right _ _⟩
        · obtain ⟨b, hb, hle⟩ := ih t ht
          exact ⟨b, List.mem_cons_of_mem _ hb, hle⟩

theorem foldl_erase_cons {b : FreeBlock} {bs rs : List FreeBlock} (h : b ∉ rs) :
    rs.foldl List.erase (b :: bs) = b :: rs.foldl List.erase bs := by
  induction rs generalizing bs with
  | nil => rfl
  | cons r rs ih =>
    rw [List.mem_cons, not_or] at h
    rw [List.foldl_cons, List.erase_cons_tail (by simpa using h.1), ih h.2]
    rfl

theorem foldl_erase_sublist (bs rs : List FreeBlock) : (rs.foldl List.erase bs).Sublist bs := by
  induction rs generalizing bs with
  | nil => exact .refl _
  | cons r rs ih => exact (ih _).trans List.erase_sublist

theorem foldl_add_cons {b : FreeBlock} {bs ts : List FreeBlock} (h : ∀ t ∈ ts, b.start ≤ t.start) :
    ts.foldl (fun l t => add t l) (b :: bs) =
      b :: ts.foldl (fun l t => add t l) bs := by
  induction ts generalizing bs with
  | nil => rfl
  | cons t ts ih =>
    rw [List.foldl_cons, add_of_le (h t (by simp)), ih fun u hu => h u (by simp [hu])]
    rfl

theorem start_lt_of_before {b c : FreeBlock} (h : Before b c) : b.start < c.start := by
  have := start_le_stop b
  simp only [Before] at h
  omega

theorem update_eq_carved {a : ℕ} {bs : List FreeBlock} {n : ℤ} (hbs : bs.Pairwise Before) :
    (pieces a bs n).blocksToAdd.foldl (fun l t => add t l)
      ((pieces a bs n).blocksToRemove.foldl List.erase bs) = carved a n bs := by
  induction bs generalizing n with
  | nil => rfl
  | cons b bs ih =>
    obtain ⟨hb, hrest⟩ := List.pairwise_cons.mp hbs
    have hadd : ∀ m, ∀ t ∈ (pieces a bs m).blocksToAdd, b.stop < t.start := by
      intro m t ht
      obtain ⟨c, hc, hle⟩ := blocksToAdd_start t ht
      exact (hb c hc).trans_le hle
    simp only [carved]
    split_ifs with hn hs
    · rw [pieces_done hn]
      rfl
    · rw [pieces_skip (not_le.mp hn) hs]
      have hnot : b ∉ (pieces a bs n).blocksToRemove := fun h =>
        not_mem_of_after hb (blocksToRemove_subset b h)
      rw [foldl_erase_cons hnot, foldl_add_cons, ih hrest]
      exact fun t ht => (start_le_stop b).trans (hadd n t ht).le
    · rw [pieces_take (not_le.mp hn) (not_lt.mp hs)]
      simp only [List.foldl_cons, List.erase_cons_head, List.foldl_append]
      rw [← ih hrest]
      by_cases hk : share a n b * a < b.size
      · have htail : ∀ c ∈ (pieces a bs (n - share a n b)).blocksToRemove.foldl List.erase bs,
            (⟨b.start + share a n b * a, b.size - share a n b * a⟩ : Region).start < c.start := by
          intro c hc
          have hbc := hb c ((foldl_erase_sublist _ _).subset hc)
          simp only [Before, stop] at hbc ⊢
          omega
        simp only [tailOf, if_pos hk, List.foldl_cons, List.foldl_nil, List.singleton_append]
        rw [add_front htail, foldl_add_cons]
        intro t ht
        have := hadd _ t ht
        simp only [stop] at this ⊢
        omega
      · simp [tailOf, hk]

theorem mem_slices {a k : ℕ} {b : FreeBlock} {p : ℕ × ℕ} (h : p ∈ slices a b k) :
    ∃ i, p = (b.start + i * a, a) := by
  simp only [slices, List.mem_map] at h
  obtain ⟨i, _, rfl⟩ := h
  exact ⟨i, rfl⟩

theorem chained_range' (a b k s : ℕ) :
    Chained (b + s * a) ((List.range' s k).map (fun i => asRegion (b + i * a, a))) ∧
      Region.total ((List.range' s k).map (fun i => asRegion (b + i * a, a))) = k * a := by
  induction k generalizing s with
  | zero => simp [Chained]
  | succ k ih =>
    obtain ⟨h1, h2⟩ := ih (s + 1)
    have hnext : (asRegion (b + s * a, a)).stop = b + (s + 1) * a := by
      simp only [asRegion, stop]
      ring
    rw [List.range'_succ, List.map_cons, total_cons, h2]
    refine ⟨⟨rfl, ?_⟩, ?_⟩
    · rw [hnext]
      exact h1
    · simp only [asRegion]
      ring

theorem chained_slices (a k : ℕ) (b : FreeBlock) :
    Chained b.start ((slices a b k).map asRegion) ∧
      Region.total ((slices a b k).map asRegion) = k * a := by
  simpa [slices, List.range_eq_range', Function.comp_def] using chained_range' a b.start k 0

theorem multiplicity_slices (a k : ℕ) (b : FreeBlock) (x : ℕ) :
    multiplicity ((slices a b k).map asRegion) x =
      if (⟨b.start, k * a⟩ : Region).Contains x then 1 else 0 := by
  rw [multiplicity_chained (chained_slices a k b).1, (chained_slices a k b).2]

theorem multiplicity_tailOf {a k : ℕ} {b : FreeBlock} (hk : k * a ≤ b.size) (x : ℕ) :
    multiplicity (tailOf a b k) x + multiplicity ((slices a b k).map asRegion) x =
      if b.Contains x then 1 else 0 := by
  rw [multiplicity_slices]
  by_cases h : k * a < b.size
  · simp only [tailOf, if_pos h, multiplicity_cons, multiplicity_nil]
    split_ifs <;> simp only [Contains, stop] at * <;> omega
  · have he : k * a = b.size := by omega
    rw [tailOf, if_neg h, multiplicity_nil, he, Nat.zero_add]

theorem total_tailOf {a k : ℕ} {b : FreeBlock} (hk : k * a ≤ b.size) :
    Region.total (tailOf a b k) + k * a = b.size := by
  by_cases h : k * a < b.size <;> simp [tailOf, h] <;> omega

theorem carved_multiplicity (x : ℕ) :
    multiplicity (carved a n bs) x + multiplicity ((pieces a bs n).allocateResult.map asRegion) x =
      multiplicity bs x := by
  induction bs generalizing n with
  | nil => rfl
  | cons b bs ih =>
    simp only [carved]
    split_ifs with hn hs
    · simp [pieces_done hn]
    · rw [pieces_skip (not_le.mp hn) hs, multiplicity_cons, multiplicity_cons, ← ih n]
      omega
    · rw [pieces_take (not_le.mp hn) (not_lt.mp hs), multiplicity_cons,
        ← ih (n - share a n b), ← multiplicity_tailOf (share_mul_le a n b)]
      simp only [multiplicity_append, List.map_append]
      omega

theorem carved_total :
    Region.total (carved a n bs) + Region.total ((pieces a bs n).allocateResult.map asRegion) =
      Region.total bs := by
  induction bs generalizing n with
  | nil => rfl
  | cons b bs ih =>
    simp only [carved]
    split_ifs with hn hs
    · simp [pieces_done hn]
    · rw [pieces_skip (not_le.mp hn) hs, total_cons, total_cons, ← ih n]
      omega
    · have hb := total_tailOf (share_mul_le a n b)
      rw [pieces_take (not_le.mp hn) (not_lt.mp hs), total_cons, ← ih (n - share a n b)]
      simp only [total_append, List.map_append, (chained_slices _ _ _).2]
      omega

theorem mem_carved {a : ℕ} {n : ℤ} {bs : List FreeBlock} :
    ∀ t ∈ carved a n bs, ∃ b ∈ bs, ∃ k, t.start = b.start + k * a ∧ t.stop = b.stop ∧
      (t.size = 0 → t = b) := by
  induction bs generalizing n with
  | nil => simp [carved]
  | cons b bs ih =>
    intro t ht
    simp only [carved] at ht
    split_ifs at ht with hn hs
    · exact ⟨t, ht, 0, by simp, rfl, fun _ => rfl⟩
    · rcases List.mem_cons.mp ht with rfl | ht
      · exact ⟨t, by simp, 0, by simp, rfl, fun _ => rfl⟩
      · obtain ⟨c, hc, h⟩ := ih t ht
        exact ⟨c, List.mem_cons_of_mem _ hc, h⟩
    · rcases List.mem_append.mp ht with ht | ht
      · obtain ⟨rfl, hk⟩ := mem_tailOf ht
        refine ⟨b, by simp, share a n b, rfl, ?_, fun h0 => ?_⟩
        · simp only [stop]
          omega
        · simp only at h0
          omega
      · obtain ⟨c, hc, h⟩ := ih t ht
        exact ⟨c, List.mem_cons_of_mem _ hc, h⟩

theorem carved_pairwise {a : ℕ} {n : ℤ} {bs : List FreeBlock} (hbs : bs.Pairwise Before) :
    (carved a n bs).Pairwise Before := by
  induction bs generalizing n with
  | nil => exact .nil
  | cons b bs ih =>
    obtain ⟨hb, hrest⟩ := List.pairwise_cons.mp hbs
    have hafter : ∀ m, ∀ t ∈ carved a m bs, b.stop < t.start := by
      intro m t ht
      obtain ⟨c, hc, k, hk, _⟩ := mem_carved t ht
      have hbc : b.stop < c.start := hb c hc
      omega
    simp only [carved]
    split_ifs with hn hs
    · exact hbs
    · exact .cons (hafter n) (ih hrest)
    · refine List.pairwise_append.mpr ⟨?_, ih hrest, fun t ht u hu => ?_⟩
      · by_cases hk : share a n b * a < b.size <;> simp [tailOf, hk]
      · obtain ⟨rfl, _⟩ := mem_tailOf ht
        have := hafter _ u hu
        have := share_mul_le a n b
        simp only [Before, stop] at *
        omega

theorem mem_allocateResult {a : ℕ} {n : ℤ} {bs : List FreeBlock} :
    ∀ p ∈ (pieces a bs n).allocateResult, ∃ b ∈ bs, ∃ i, p = (b.start + i * a, a) := by
  induction bs generalizing n with
  | nil => simp
  | cons b bs ih =>
    intro p hp
    by_cases hn : n ≤ 0
    · simp [pieces_done hn] at hp
    · by_cases hs : b.size < a
      · rw [pieces_skip (not_le.mp hn) hs] at hp
        obtain ⟨c, hc, h⟩ := ih p hp
        exact ⟨c, List.mem_cons_of_mem _ hc, h⟩
      · rw [pieces_take (not_le.mp hn) (not_lt.mp hs)] at hp
        rcases List.mem_append.mp hp with hp | hp
        · exact ⟨b, by simp, mem_slices hp⟩
        · obtain ⟨c, hc, h⟩ := ih p hp
          exact ⟨c, List.mem_cons_of_mem _ hc, h⟩

theorem total_allocateResult :
    Region.total ((pieces a bs n).allocateResult.map asRegion) =
      a * (pieces a bs n).allocateResult.length := by
  have key : ∀ ps : List (ℕ × ℕ), (∀ p ∈ ps, p.2 = a) →
      Region.total (ps.map asRegion) = a * ps.length := by
    intro ps hps
    induction ps with
    | nil => rfl
    | cons p ps ih =>
      rw [List.map_cons, total_cons, ih fun q hq => hps q (by simp [hq]), List.length_cons,
        show (asRegion p).size = a from hps p (by simp)]
      ring
  refine key _ fun p hp => ?_
  obtain ⟨b, _, i, rfl⟩ := mem_allocateResult p hp
  rfl

end AddressManager

end LMCache
