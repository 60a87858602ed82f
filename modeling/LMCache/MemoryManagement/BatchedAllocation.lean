import LMCache.MemoryManagement.Tiling

namespace LMCache

open SortedList List Execution

variable {m : AddressManager} (bs : List FreeBlock)

open Region hiding size total start

namespace SortedList

def Sorted : Prop := bs.Pairwise (fun b c => b.start ≤ c.start)

theorem sorted_add (b : FreeBlock) {bs : List FreeBlock} (h : Sorted bs) : Sorted (add b bs) := by
  induction bs with
  | nil => exact pairwise_singleton _ _
  | cons c cs ih =>
    obtain ⟨hc, hcs⟩ := pairwise_cons.mp h
    by_cases hle : c.start ≤ b.start
    · rw [add_of_le hle]
      refine .cons (fun d hd => ?_) (ih hcs)
      rcases mem_add.mp hd with rfl | hd
      · exact hle
      · exact hc d hd
    · rw [add, if_neg hle]
      refine .cons (fun d hd => ?_) h
      rcases mem_cons.mp hd with rfl | hd
      · exact (not_le.mp hle).le
      · exact (not_le.mp hle).le.trans (hc d hd)

theorem sorted_erase (b : FreeBlock) {bs : List FreeBlock} (h : Sorted bs) :
    Sorted (bs.erase b) := h.sublist erase_sublist

theorem sorted_replace (p : FreeBlock) (size : ℕ) {bs : List FreeBlock} (h : Sorted bs) :
    Sorted (bs.replace p ⟨p.start, size⟩) := by
  have hstarts : (bs.replace p ⟨p.start, size⟩).map Region.start = bs.map Region.start := by
    clear h
    induction bs with
    | nil => rfl
    | cons c cs ih =>
      rw [replace_cons]
      split
      · rename_i hc
        rw [map_cons, map_cons, eq_of_beq hc]
      · rw [map_cons, map_cons, ih]
  apply pairwise_map.mp
  rw [hstarts]
  exact pairwise_map.mpr h

theorem add_front_of_le {b : FreeBlock} {bs : List FreeBlock} (h : ∀ c ∈ bs, b.start < c.start)
    (r : FreeBlock) : add b (bs.erase r) = b :: bs.erase r :=
  add_front fun c hc => h c (mem_of_mem_erase hc)

theorem erase_add {t r : FreeBlock} {bs : List FreeBlock} (h : Sorted bs) (hne : t ≠ r) :
    (add t bs).erase r = add t (bs.erase r) := by
  induction bs with
  | nil => simp [add, hne]
  | cons c cs ih =>
    obtain ⟨hc, hcs⟩ := pairwise_cons.mp h
    by_cases hle : c.start ≤ t.start
    · rw [add_of_le hle]
      by_cases hcr : c = r
      · rw [hcr, erase_cons_head, erase_cons_head]
      · rw [erase_cons_tail (by simpa using hcr), erase_cons_tail (by simpa using hcr),
          add_of_le hle, ih hcs]
    · have hfront : ∀ d ∈ c :: cs, t.start < d.start := by
        intro d hd
        rcases mem_cons.mp hd with rfl | hd
        · exact not_le.mp hle
        · exact (not_le.mp hle).trans_le (hc d hd)
      rw [add_front hfront, erase_cons_tail (by simpa using hne), add_front_of_le hfront]

variable {t : FreeBlock}

theorem erase_add_self {bs : List FreeBlock} (h : t ∉ bs) :
    (add t bs).erase t = bs := by
  induction bs with
  | nil => simp [add]
  | cons c cs ih =>
    rw [List.mem_cons, not_or] at h
    by_cases hle : c.start ≤ t.start
    · rw [add_of_le hle, List.erase_cons_tail (by simpa using Ne.symm h.1), ih h.2]
    · rw [add, if_neg hle, List.erase_cons_head]

theorem foldl_erase_add {bs rs : List FreeBlock} (h : Sorted bs) (hnot : t ∉ rs) :
    rs.foldl List.erase (add t bs) = add t (rs.foldl List.erase bs) := by
  induction rs generalizing bs with
  | nil => rfl
  | cons r rs ih =>
    rw [List.mem_cons, not_or] at hnot
    rw [List.foldl_cons, List.foldl_cons, erase_add h hnot.1, ih (sorted_erase r h) hnot.2]

theorem filter_add (p : FreeBlock → Bool) (t : FreeBlock) {bs : List FreeBlock} (h : Sorted bs) :
    (add t bs).filter p = if p t then add t (bs.filter p) else bs.filter p := by
  induction bs with
  | nil => simp [add, List.filter_cons]
  | cons c cs ih =>
    obtain ⟨hc, hcs⟩ := pairwise_cons.mp h
    by_cases hle : c.start ≤ t.start
    · rw [add_of_le hle, filter_cons, filter_cons, ih hcs]
      split_ifs
      · rw [add_of_le hle]
      · rfl
      · rfl
      · rfl
    · rw [add, if_neg hle, filter_cons]
      split_ifs
      · rw [add_front]
        intro d hd
        rcases mem_cons.mp (mem_of_mem_filter hd) with rfl | hd
        · exact not_le.mp hle
        · exact (not_le.mp hle).trans_le (hc d hd)
      · rfl

end SortedList

namespace AddressManager

def allocateTimes (size : ℕ) :
    ℕ → AddressManager → Except RuntimeError (List (ℕ × ℕ)) × AddressManager
  | 0, m => (.ok [], m)
  | n + 1, m =>
      match m.allocate size with
      | (.error e, m') => (.error e, m')
      | (.ok p, m') =>
          match allocateTimes size n m' with
          | (.error e, m'') => (.error e, m'')
          | (.ok ps, m'') => (.ok (p :: ps), m'')

def Listed : Prop :=
  bs.Pairwise (fun b c => b.start ≤ c.start ∧ (0 < b.size → 0 < c.size → b.stop ≤ c.start))

variable {bs : List FreeBlock}

theorem Listed.sorted (h : Listed bs) : SortedList.Sorted bs :=
  h.imp And.left

variable (a : ℕ)

def taken (b : FreeBlock) (bs : List FreeBlock) : List FreeBlock :=
  if a < b.size then add ⟨b.start + a, b.size - a⟩ (bs.erase b) else bs.erase b

def updated (bs : List FreeBlock) (n : ℤ) : List FreeBlock :=
  (pieces a bs n).blocksToAdd.foldl (fun l t => add t l)
    ((pieces a bs n).blocksToRemove.foldl List.erase bs)

def fits (b : FreeBlock) : Bool := decide (a ≤ b.size)

theorem pieces_filter (bs : List FreeBlock) (n : ℤ) :
    pieces a bs n = pieces a (bs.filter (fits a)) n := by
  induction bs generalizing n with
  | nil => rfl
  | cons b bs ih =>
    rcases le_or_gt n 0 with hn | hn
    · rw [pieces_done hn, pieces_done hn]
    · by_cases hb : a ≤ b.size
      · rw [filter_cons_of_pos (by simpa [fits] using hb), pieces_take hn hb,
          pieces_take hn hb, ← ih]
      · rw [filter_cons_of_neg (by simpa [fits] using hb), pieces_skip hn (not_le.mp hb), ih]

@[simp] theorem length_slices (b : FreeBlock) (k : ℕ) : (slices a b k).length = k := by
  simp [slices]

theorem pieces_account (bs : List FreeBlock) (n : ℤ) :
    (pieces a bs n).remaining + (pieces a bs n).allocateResult.length = n := by
  induction bs generalizing n with
  | nil => simp
  | cons b bs ih =>
    rcases le_or_gt n 0 with hn | hn
    · simp [pieces_done hn]
    · by_cases hb : a ≤ b.size
      · have hrest := ih (n - share a n b)
        rw [pieces_take hn hb]
        simp only [length_append, length_slices, Nat.cast_add]
        omega
      · rw [pieces_skip hn (not_le.mp hb)]
        exact ih n

variable {size : ℕ}

theorem batchedAllocate_ok_iff {m m' : AddressManager} {n : ℤ} {ps : List (ℕ × ℕ)} :
    m.batchedAllocate size n = (.ok ps, m') ↔
      (pieces (m.computeAlignedSize size) m.explicitList n).remaining = 0 ∧
      (pieces (m.computeAlignedSize size) m.explicitList n).allocateResult = ps ∧
      { m with
        explicitList := updated (m.computeAlignedSize size) m.explicitList n
        totalAllocatedSize := m.totalAllocatedSize + m.computeAlignedSize size * n } = m' := by
  have haccount := pieces_account (m.computeAlignedSize size) m.explicitList n
  rw [pieces] at haccount
  simp only [batchedAllocate, updated, pieces]
  split_ifs with hrem hlen
  · simp only [Prod.mk.injEq, reduceCtorEq, false_and, false_iff]
    omega
  · simp only [Prod.mk.injEq, reduceCtorEq, false_and, false_iff]
    omega
  · rw [not_not] at hlen
    have hzero : (carve (m.computeAlignedSize size) m.explicitList ⟨n, [], [], []⟩).remaining = 0 := by
      omega
    simp [hzero]

variable {b : FreeBlock}

theorem allocate_eq (h : m.explicitList.find? (fits (m.computeAlignedSize size)) = some b) :
    m.allocate size = (.ok (b.start, m.computeAlignedSize size),
      { m with
        explicitList := taken (m.computeAlignedSize size) b m.explicitList
        totalAllocatedSize := m.totalAllocatedSize + m.computeAlignedSize size }) := by
  have hfind : m.explicitList.find?
      (fun block => decide (m.computeAlignedSize size ≤ block.size)) = some b := h
  simp only [allocate, hfind, taken]

theorem allocate_eq_error (h : m.explicitList.find? (fits (m.computeAlignedSize size)) = none) :
    ∃ e, m.allocate size = (.error e, m) := by
  have hfind : m.explicitList.find?
      (fun block => decide (m.computeAlignedSize size ≤ block.size)) = none := h
  simp only [allocate, hfind]
  exact ⟨_, rfl⟩

variable {a : ℕ}

theorem filter_fits (h : bs.find? (fits a) = some b) :
    bs.filter (fits a) = b :: (bs.erase b).filter (fits a) := by
  have hhead := head?_filter (p := fits a) (l := bs)
  rw [h] at hhead
  obtain ⟨rest, hrest⟩ := head?_eq_some_iff.mp hhead
  rw [← erase_filter, hrest, erase_cons_head]

theorem stop_le_of_fits (ha : 0 < a) (hbs : Listed bs) (h : bs.find? (fits a) = some b) :
    ∀ c ∈ bs.erase b, a ≤ c.size → b.stop ≤ c.start := by
  intro c hc hsize
  have hmem : c ∈ (bs.erase b).filter (fits a) :=
    mem_filter.mpr ⟨hc, by simpa [fits] using hsize⟩
  have hb : a ≤ b.size := by simpa [fits] using find?_some h
  have hpairs : Listed (b :: (bs.erase b).filter (fits a)) := by
    rw [← filter_fits h]
    exact hbs.sublist filter_sublist
  exact ((pairwise_cons.mp hpairs).1 c hmem).2 (ha.trans_le hb) (ha.trans_le hsize)

theorem pieces_none (h : bs.find? (fits a) = none) (n : ℤ) :
    pieces a bs n = ⟨n, [], [], []⟩ := by
  rw [pieces_filter, filter_eq_nil_iff.mpr (by simpa using h), pieces_nil]

theorem pieces_some {n : ℤ} (hn : 0 < n) (h : bs.find? (fits a) = some b) :
    pieces a bs n =
      { remaining := (pieces a (bs.erase b) (n - share a n b)).remaining
        allocateResult := slices a b (share a n b) ++
          (pieces a (bs.erase b) (n - share a n b)).allocateResult
        blocksToRemove := b :: (pieces a (bs.erase b) (n - share a n b)).blocksToRemove
        blocksToAdd := tailOf a b (share a n b) ++
          (pieces a (bs.erase b) (n - share a n b)).blocksToAdd } := by
  have hb : a ≤ b.size := by simpa [fits] using find?_some h
  rw [pieces_filter, filter_fits h, pieces_take hn hb, ← pieces_filter]

theorem fits_of_removed {n : ℤ} :
    ∀ b ∈ (pieces a bs n).blocksToRemove, b ∈ bs ∧ a ≤ b.size := by
  intro b hb
  rw [pieces_filter] at hb
  have hmem := mem_filter.mp (blocksToRemove_subset b hb)
  exact ⟨hmem.1, by simpa [fits] using hmem.2⟩

theorem slices_succ (b : FreeBlock) (k : ℕ) :
    slices a b (k + 1) = (b.start, a) :: slices a ⟨b.start + a, b.size - a⟩ k := by
  simp only [slices, range_succ_eq_map, map_cons, map_map, Nat.zero_mul, Nat.add_zero]
  congr 1
  refine map_congr_left fun i _ => ?_
  simp only [Function.comp_apply, Nat.succ_mul, Nat.add_assoc, Nat.add_comm a]

theorem tailOf_succ (b : FreeBlock) (k : ℕ) :
    tailOf a b (k + 1) = tailOf a ⟨b.start + a, b.size - a⟩ k := by
  have hstart : b.start + (k + 1) * a = b.start + a + k * a := by ring
  have hsize : b.size - (k + 1) * a = b.size - a - k * a := by
    rw [Nat.succ_mul]
    omega
  have hleft : (k + 1) * a < b.size ↔ k * a < b.size - a := by
    rw [Nat.succ_mul]
    omega
  simp only [tailOf, hstart, hsize, hleft]

variable {n : ℕ}

theorem share_one (ha : 0 < a) (hb : a ≤ b.size) (hlast : n = 0 ∨ b.size - a < a) :
    share a (n + 1 : ℕ) b = 1 := by
  simp only [share, Nat.div_eq_sub_div ha hb]
  rcases hlast with rfl | hlt
  · generalize (b.size - a) / a = q
    omega
  · rw [Nat.div_eq_of_lt hlt]
    omega

theorem share_succ (ha : 0 < a) (hb : a ≤ b.size) :
    share a (n + 1 : ℕ) b = share a n ⟨b.start + a, b.size - a⟩ + 1 := by
  simp only [share, Nat.div_eq_sub_div ha hb]
  generalize (b.size - a) / a = q
  omega

-- a batch of one more piece than n takes one piece from b and leaves n to the list without it
structure FirstTaken (a : ℕ) (b : FreeBlock) (bs : List FreeBlock) (n : ℕ) : Prop where
  remaining : (pieces a bs (n + 1 : ℕ)).remaining = (pieces a (taken a b bs) n).remaining
  allocateResult : (pieces a bs (n + 1 : ℕ)).allocateResult =
    (b.start, a) :: (pieces a (taken a b bs) n).allocateResult
  updated : updated a bs (n + 1 : ℕ) = updated a (taken a b bs) n

theorem pieces_again (ha : 0 < a) (hbs : Listed bs) (h : bs.find? (fits a) = some b) (hn : 0 < n)
    (hagain : a ≤ b.size - a) :
    FirstTaken a b bs n := by
  have hb : a ≤ b.size := by omega
  have hbehind := stop_le_of_fits ha hbs h
  have hsorted := sorted_erase b hbs.sorted
  have htaken : taken a b bs = add ⟨b.start + a, b.size - a⟩ (bs.erase b) :=
    if_pos (by omega)
  have hfront : ∀ c ∈ (bs.erase b).filter (fits a), b.start + a < c.start := by
    intro c hc
    obtain ⟨hmem, hfits⟩ := mem_filter.mp hc
    have := hbehind c hmem (by simpa [fits] using hfits)
    simp only [stop] at this
    omega
  have hnot : (⟨b.start + a, b.size - a⟩ : FreeBlock) ∉ bs.erase b := by
    intro hmem
    have := hbehind _ hmem hagain
    simp only [stop] at this
    omega
  have hfind : (taken a b bs).find? (fits a) = some ⟨b.start + a, b.size - a⟩ := by
    rw [← head?_filter, htaken, filter_add _ _ hsorted,
      if_pos (by simpa [fits] using hagain), add_front hfront, head?_cons]
  have herase : (taken a b bs).erase ⟨b.start + a, b.size - a⟩ = bs.erase b := by
    rw [htaken, erase_add_self hnot]
  have hshare := share_succ (n := n) ha hb
  have hrest : ((n + 1 : ℕ) : ℤ) - (share a (n + 1 : ℕ) b : ℕ) =
      n - (share a n ⟨b.start + a, b.size - a⟩ : ℕ) := by
    rw [hshare]
    push_cast
    ring
  have hleft := pieces_some (n := (n + 1 : ℕ)) (by omega) h
  have hright := pieces_some (n := (n : ℤ)) (by omega) hfind
  rw [hrest, hshare] at hleft
  rw [herase] at hright
  refine ⟨by rw [hleft, hright], ?_, ?_⟩
  · rw [hleft, hright, slices_succ, cons_append]
  · rw [updated, updated, hleft, hright, List.foldl_cons, List.foldl_cons, herase, tailOf_succ]

theorem pieces_last (ha : 0 < a) (hbs : Listed bs) (h : bs.find? (fits a) = some b)
    (hlast : n = 0 ∨ b.size - a < a) :
    FirstTaken a b bs n := by
  have hb : a ≤ b.size := by simpa [fits] using find?_some h
  have hbehind := stop_le_of_fits ha hbs h
  have hsorted := sorted_erase b hbs.sorted
  have hleft := pieces_some (n := (n + 1 : ℕ)) (by omega) h
  have hrest : ((n + 1 : ℕ) : ℤ) - (1 : ℕ) = n := by
    push_cast
    ring
  rw [share_one ha hb hlast, hrest] at hleft
  have hslice : slices a b 1 = [(b.start, a)] := by
    rw [slices_succ]
    rfl
  have htail : tailOf a b 1 = if a < b.size then [⟨b.start + a, b.size - a⟩] else [] := by
    rw [tailOf, Nat.one_mul]
  have hright : pieces a (taken a b bs) n = pieces a (bs.erase b) n := by
    rcases hlast with rfl | hlt
    · rw [pieces_done (by simp), pieces_done (by simp)]
    · rw [pieces_filter, taken]
      split_ifs
      · rw [filter_add _ _ hsorted, if_neg (by simpa [fits] using hlt), ← pieces_filter]
      · rw [← pieces_filter]
  refine ⟨by rw [hleft, hright], by rw [hleft, hright, hslice, List.singleton_append], ?_⟩
  rw [updated, updated, hleft, hright, List.foldl_cons, List.foldl_append, htail, taken]
  split_ifs with hlt
  · rw [List.foldl_cons, List.foldl_nil, foldl_erase_add hsorted]
    intro hmem
    obtain ⟨hold, hsize⟩ := fits_of_removed _ hmem
    have := hbehind _ hold hsize
    simp only [stop] at this
    omega
  · rfl

theorem pieces_succ (ha : 0 < a) (hbs : Listed bs) (h : bs.find? (fits a) = some b) (n : ℕ) :
    FirstTaken a b bs n := by
  by_cases hagain : 0 < n ∧ a ≤ b.size - a
  · exact pieces_again ha hbs h hagain.1 hagain.2
  · exact pieces_last ha hbs h (by omega)

theorem computeAlignedSize_pos (halign : 0 < m.align) (hsize : 0 < size) :
    0 < m.computeAlignedSize size := by
  apply Nat.pos_of_ne_zero
  intro hzero
  have hbits : ∀ i, (size + m.align - 1).testBit i = true → (m.align - 1).testBit i = true := by
    intro i hi
    have hbit := Nat.testBit_ldiff (size + m.align - 1) (m.align - 1) i
    rw [computeAlignedSize] at hzero
    rw [hzero, Nat.zero_testBit, hi] at hbit
    simpa using hbit
  have hle : size + m.align - 1 ≤ m.align - 1 := Nat.le_of_testBit hbits
  omega

theorem multiplicity_erase {s : FreeBlock} (hs : s ∈ bs) (x : ℕ) :
    multiplicity (bs.erase s) x + (if s.Contains x then 1 else 0) = multiplicity bs x := by
  rw [multiplicity_perm (perm_cons_erase hs), multiplicity_cons]

theorem multiplicity_add (t : FreeBlock) (bs : List FreeBlock) (x : ℕ) :
    multiplicity (add t bs) x = multiplicity bs x + if t.Contains x then 1 else 0 := by
  rw [multiplicity_perm (add_perm t bs), multiplicity_cons]

theorem multiplicity_replace {p : FreeBlock} (hp : p ∈ bs) (q : FreeBlock) (x : ℕ) :
    multiplicity (bs.replace p q) x + (if p.Contains x then 1 else 0) =
      multiplicity bs x + if q.Contains x then 1 else 0 := by
  induction bs with
  | nil => exact absurd hp not_mem_nil
  | cons c cs ih =>
    by_cases hc : p = c
    · rw [hc, replace_cons_self, multiplicity_cons, multiplicity_cons]
      omega
    · have hbeq : (p == c) = false := by simpa using hc
      have hrest := ih ((mem_cons.mp hp).resolve_left hc)
      simp only [replace_cons, hbeq, multiplicity_cons]
      omega

variable {p q c : FreeBlock}

theorem mem_of_mem_replace (h : c ∈ bs.replace p q) : c = q ∨ c ∈ bs := by
  induction bs with
  | nil => exact absurd h not_mem_nil
  | cons b bs ih =>
    rw [replace_cons] at h
    split at h
    · exact (mem_cons.mp h).imp_right (mem_cons_of_mem _)
    · rcases mem_cons.mp h with rfl | h
      · exact .inr mem_cons_self
      · exact (ih h).imp_right (mem_cons_of_mem _)

theorem mem_replace_of_ne (h : c ∈ bs) (hne : c ≠ p) : c ∈ bs.replace p q := by
  induction bs with
  | nil => exact absurd h not_mem_nil
  | cons b bs ih =>
    rw [replace_cons]
    split
    · rename_i hb
      rcases mem_cons.mp h with rfl | h
      · exact absurd (eq_of_beq hb).symm hne
      · exact mem_cons_of_mem _ h
    · rcases mem_cons.mp h with rfl | h
      · exact mem_cons_self
      · exact mem_cons_of_mem _ (ih h)

theorem multiplicity_taken (hb : b ∈ bs) (hsize : a ≤ b.size) (x : ℕ) :
    multiplicity (taken a b bs) x + (if (⟨b.start, a⟩ : Region).Contains x then 1 else 0) =
      multiplicity bs x := by
  rw [← multiplicity_erase hb, taken]
  by_cases hlt : a < b.size
  · rw [if_pos hlt, multiplicity_add]
    split_ifs <;> simp only [Contains, stop] at * <;> omega
  · rw [if_neg hlt]
    split_ifs <;> simp only [Contains, stop] at * <;> omega

theorem insertFree_cases (bs : List FreeBlock) (r : Region) (prev succ : Option FreeBlock) :
    (∃ p ∈ prev, ∃ s ∈ succ, p.stop = r.start ∧ r.stop = s.start ∧
      insertFree bs r prev succ = (bs.replace p ⟨p.start, p.size + (r.size + s.size)⟩).erase s) ∨
    (∃ p ∈ prev, p.stop = r.start ∧
      insertFree bs r prev succ = bs.replace p ⟨p.start, p.size + r.size⟩) ∨
    (∃ s ∈ succ, r.stop = s.start ∧
      insertFree bs r prev succ = add ⟨s.start - r.size, s.size + r.size⟩ (bs.erase s)) ∨
    insertFree bs r prev succ = add r bs := by
  by_cases hp : ∃ p ∈ prev, p.stop = r.start
  · obtain ⟨p, hprev, hpr⟩ := hp
    obtain rfl := Option.mem_def.mp hprev
    by_cases hs : ∃ s ∈ succ, r.stop = s.start
    · obtain ⟨s, hsucc, hsr⟩ := hs
      obtain rfl := Option.mem_def.mp hsucc
      exact .inl ⟨p, rfl, s, rfl, hpr, hsr, insertFree_merge_both hpr hsr⟩
    · exact .inr (.inl ⟨p, rfl, hpr, insertFree_merge_prev hpr fun s h1 h2 => hs ⟨s, h1, h2⟩⟩)
  · have hp' : ∀ p ∈ prev, p.stop ≠ r.start := fun p h1 h2 => hp ⟨p, h1, h2⟩
    by_cases hs : ∃ s ∈ succ, r.stop = s.start
    · obtain ⟨s, hsucc, hsr⟩ := hs
      obtain rfl := Option.mem_def.mp hsucc
      exact .inr (.inr (.inl ⟨s, rfl, hsr, insertFree_merge_succ hp' hsr⟩))
    · exact .inr (.inr (.inr (insertFree_alone hp' fun s h1 h2 => hs ⟨s, h1, h2⟩)))

theorem sorted_insertFree (h : SortedList.Sorted bs) (r : Region) (prev succ : Option FreeBlock) :
    SortedList.Sorted (insertFree bs r prev succ) := by
  rcases insertFree_cases bs r prev succ with
    ⟨p, _, s, _, _, _, heq⟩ | ⟨p, _, _, heq⟩ | ⟨s, _, _, heq⟩ | heq
  · rw [heq]
    apply sorted_erase
    exact sorted_replace p _ h
  · rw [heq]
    exact sorted_replace p _ h
  · rw [heq]
    apply sorted_add
    exact sorted_erase s h
  · rw [heq]
    exact sorted_add r h

variable {prev succ : Option FreeBlock}

theorem multiplicity_insertFree (hprev : ∀ p ∈ prev, p ∈ bs) (hsucc : ∀ s ∈ succ, s ∈ bs)
    (r : Region) (x : ℕ) :
    multiplicity (insertFree bs r prev succ) x ≤
      multiplicity bs x + if r.Contains x then 1 else 0 := by
  rcases insertFree_cases bs r prev succ with
    ⟨p, hp, s, hs, hpr, hrs, heq⟩ | ⟨p, hp, hpr, heq⟩ | ⟨s, hs, hrs, heq⟩ | heq
  · have hreplace := multiplicity_replace (hprev p hp) ⟨p.start, p.size + (r.size + s.size)⟩ x
    rw [heq]
    by_cases hmem : s ∈ bs.replace p ⟨p.start, p.size + (r.size + s.size)⟩
    · have herase := multiplicity_erase hmem x
      split_ifs at * <;> simp only [Contains, stop] at * <;> omega
    · have hsp : s = p := by
        by_contra hne
        exact hmem (mem_replace_of_ne (hsucc s hs) hne)
      rw [erase_of_not_mem hmem]
      split_ifs at * <;> simp only [Contains, stop, hsp] at * <;> omega
  · have hreplace := multiplicity_replace (hprev p hp) ⟨p.start, p.size + r.size⟩ x
    rw [heq]
    split_ifs at * <;> simp only [Contains, stop] at * <;> omega
  · have herase := multiplicity_erase (hsucc s hs) x
    rw [heq, multiplicity_add]
    split_ifs at * <;> simp only [Contains, stop] at * <;> omega
  · rw [heq, multiplicity_add]

theorem mem_of_prev {index : ℕ} {p : FreeBlock}
    (h : p ∈ (if 0 < index then bs[index - 1]? else none)) : p ∈ bs := by
  split_ifs at h
  · exact mem_of_getElem? h
  · exact absurd h (by simp)

theorem start_insertFree {r : Region} {bound : ℕ} (hprev : ∀ p ∈ prev, p ∈ bs)
    (hsucc : ∀ s ∈ succ, s ∈ bs) (hbs : ∀ b ∈ bs, b.start ≤ bound) (hr : r.start ≤ bound) :
    ∀ b ∈ insertFree bs r prev succ, b.start ≤ bound := by
  intro b hb
  rcases insertFree_cases bs r prev succ with
    ⟨p, hp, s, _, _, _, heq⟩ | ⟨p, hp, _, heq⟩ | ⟨s, hs, _, heq⟩ | heq
  · rw [heq] at hb
    rcases mem_of_mem_replace (mem_of_mem_erase hb) with rfl | hold
    · exact hbs p (hprev p hp)
    · exact hbs b hold
  · rw [heq] at hb
    rcases mem_of_mem_replace hb with rfl | hold
    · exact hbs p (hprev p hp)
    · exact hbs b hold
  · rw [heq] at hb
    rcases mem_add.mp hb with rfl | hold
    · exact (Nat.sub_le _ _).trans (hbs s (hsucc s hs))
    · exact hbs b (mem_of_mem_erase hold)
  · rw [heq] at hb
    rcases mem_add.mp hb with rfl | hold
    · exact hr
    · exact hbs b hold

end AddressManager

namespace AddressSpace

open AddressManager hiding size align init allocate batchedAllocate free sbrk

def FreesLive (s : AddressSpace) : AddressOp → Prop
  | .free address regions => regions ≠ [] ∧ regions.Subperm s.live ∧ Chained address regions
  | _ => True

instance (s : AddressSpace) (op : AddressOp) : Decidable (FreesLive s op) :=
  match op with
  | .free address regions =>
      inferInstanceAs (Decidable (regions ≠ [] ∧ regions.Subperm s.live ∧ Chained address regions))
  | .allocate _ | .batchedAllocate _ _ | .sbrk _ => .isTrue trivial

structure Separated (s : AddressSpace) : Prop where
  align : 0 < s.manager.align
  sorted : SortedList.Sorted s.manager.explicitList
  disjoint : ∀ x, multiplicity s.manager.explicitList x + multiplicity s.live x ≤
    if x < s.manager.size then 1 else 0
  freeStart : ∀ b ∈ s.manager.explicitList, b.start ≤ s.manager.size
  liveStart : ∀ r ∈ s.live, r.start ≤ s.manager.size

variable {s : AddressSpace}

theorem separated_init (size : ℕ) {alignBytes : ℕ} (halign : 0 < alignBytes) :
    Separated (init size alignBytes) where
  align := halign
  sorted := pairwise_singleton _ _
  disjoint x := by
    by_cases hx : x < size <;>
      simp [init, AddressManager.init, add, multiplicity_cons, Contains, hx]
  freeStart := by simp [init, AddressManager.init, add]
  liveStart := by simp [init]

theorem Separated.listed (h : Separated s) : Listed s.manager.explicitList := by
  have hapart : s.manager.explicitList.Pairwise Apart := by
    apply pairwise_apart
    intro x
    have := h.disjoint x
    split_ifs at this <;> omega
  refine (h.sorted.and hapart).imp fun ⟨hle, hbc⟩ => ⟨hle, fun _ hc => hbc.stop_le hc hle⟩

theorem Separated.take (h : Separated s) {size : ℕ} {b : FreeBlock}
    (hfind : s.manager.explicitList.find? (fits (s.manager.computeAlignedSize size)) = some b) :
    Separated ⟨{ s.manager with
        explicitList := taken (s.manager.computeAlignedSize size) b s.manager.explicitList
        totalAllocatedSize := s.manager.totalAllocatedSize + s.manager.computeAlignedSize size },
      s.live ++ [asRegion (b.start, s.manager.computeAlignedSize size)]⟩ := by
  have hmem := mem_of_find?_eq_some hfind
  have hsize : s.manager.computeAlignedSize size ≤ b.size := by
    simpa [fits] using find?_some hfind
  generalize s.manager.computeAlignedSize size = a at hsize
  have hsorted := sorted_erase b h.sorted
  have hstart := h.freeStart b hmem
  refine ⟨h.align, ?_, fun x => ?_, fun c hc => ?_, fun r hr => ?_⟩
  · simp only [taken]
    split_ifs
    · exact sorted_add _ hsorted
    · exact hsorted
  · have htaken := multiplicity_taken hmem hsize x
    have := h.disjoint x
    simp only [multiplicity_append, multiplicity_cons, multiplicity_nil, asRegion]
    omega
  · simp only [taken] at hc
    split_ifs at hc with hlt
    · rcases mem_add.mp hc with rfl | hc
      · have hpos : 0 < multiplicity s.manager.explicitList (b.start + a) :=
          contains_of_multiplicity_pos.mpr ⟨b, hmem, by simp only [Contains, stop]; omega⟩
        have := h.disjoint (b.start + a)
        split_ifs at this with hx
        · exact hx.le
        · omega
      · exact h.freeStart c (mem_of_mem_erase hc)
    · exact h.freeStart c (mem_of_mem_erase hc)
  · rcases mem_append.mp hr with hr | hr
    · exact h.liveStart r hr
    · rw [mem_singleton.mp hr]
      exact hstart

variable {size n : ℕ} {ps : List (ℕ × ℕ)}

theorem allocateTimes_succ_ok {m m1 m' : AddressManager} {p : ℕ × ℕ}
    (h : m.allocate size = (.ok p, m1)) :
    allocateTimes size (n + 1) m = (.ok ps, m') ↔
      ∃ qs, p :: qs = ps ∧ allocateTimes size n m1 = (.ok qs, m') := by
  simp only [allocateTimes, h]
  generalize allocateTimes size n m1 = answer
  rcases answer with ⟨e | qs, m2⟩
  · simp
  · simp [and_left_comm]

theorem allocateTimes_succ_error {e : RuntimeError} (h : m.allocate size = (.error e, m)) :
    allocateTimes size (n + 1) m = (.error e, m) := by
  rw [allocateTimes, h]

theorem Separated.allocateTimes_iff (h : Separated s) {size : ℕ} (hsize : 0 < size) (n : ℕ)
    (ps : List (ℕ × ℕ)) (m' : AddressManager) :
    s.manager.batchedAllocate size n = (.ok ps, m') ↔
      allocateTimes size n s.manager = (.ok ps, m') := by
  induction n generalizing s ps with
  | zero =>
    rw [batchedAllocate_ok_iff, updated, pieces_done (by simp), allocateTimes]
    simp
  | succ n ih =>
    have ha := computeAlignedSize_pos h.align hsize
    cases hfind : s.manager.explicitList.find? (fits (s.manager.computeAlignedSize size)) with
    | none =>
      obtain ⟨e, herror⟩ := allocate_eq_error hfind
      rw [allocateTimes_succ_error herror, batchedAllocate_ok_iff, pieces_none hfind]
      simp only [Prod.mk.injEq, reduceCtorEq, false_and, iff_false, not_and]
      omega
    | some b =>
      obtain ⟨hremaining, hresult, hupdated⟩ := pieces_succ ha h.listed hfind n
      have htotal : s.manager.totalAllocatedSize +
          s.manager.computeAlignedSize size * ((n + 1 : ℕ) : ℤ) =
          s.manager.totalAllocatedSize + s.manager.computeAlignedSize size +
            s.manager.computeAlignedSize size * (n : ℤ) := by
        push_cast
        ring
      rw [allocateTimes_succ_ok (allocate_eq hfind), batchedAllocate_ok_iff, hremaining, hresult,
        hupdated, htotal]
      simp only [← ih (h.take hfind), batchedAllocate_ok_iff]
      constructor
      · rintro ⟨hzero, hps, hm⟩
        exact ⟨_, hps, hzero, rfl, hm⟩
      · rintro ⟨qs, hps, hzero, rfl, hm⟩
        exact ⟨hzero, hps, hm⟩

theorem Separated.allocateTimes_ok (h : Separated s) {m' : AddressManager}
    (hm : allocateTimes size n s.manager = (.ok ps, m')) :
    ps.length = n ∧ Separated ⟨m', s.live ++ ps.map asRegion⟩ := by
  induction n generalizing s ps with
  | zero =>
    obtain ⟨rfl, rfl⟩ : [] = ps ∧ s.manager = m' := by simpa [allocateTimes] using hm
    simpa using h
  | succ n ih =>
    cases hfind : s.manager.explicitList.find? (fits (s.manager.computeAlignedSize size)) with
    | none =>
      obtain ⟨e, herror⟩ := allocate_eq_error hfind
      rw [allocateTimes_succ_error herror] at hm
      simp at hm
    | some b =>
      obtain ⟨qs, rfl, hqs⟩ := (allocateTimes_succ_ok (allocate_eq hfind)).mp hm
      obtain ⟨hlength, hnext⟩ := ih (h.take hfind) hqs
      rw [append_assoc] at hnext
      exact ⟨by rw [length_cons, hlength], hnext⟩

theorem Separated.allocate (h : Separated s) (size : ℕ) : Separated (exec s (.allocate size)) := by
  cases hfind : s.manager.explicitList.find? (fits (s.manager.computeAlignedSize size)) with
  | none =>
    obtain ⟨e, herror⟩ := allocate_eq_error hfind
    simp only [exec, herror]
    exact h
  | some b =>
    simp only [exec, allocate_eq hfind]
    exact h.take hfind

theorem pieces_zero {n : ℤ} (hn : 0 < n) : (pieces 0 bs n).remaining = n := by
  induction bs with
  | nil => rfl
  | cons b bs ih =>
    have hshare : share 0 n b = 0 := by
      simp only [share, Nat.div_zero]
      omega
    rw [pieces_take hn (Nat.zero_le _), hshare, Nat.cast_zero, sub_zero]
    exact ih

theorem computeAlignedSize_zero (m : AddressManager) : m.computeAlignedSize 0 = 0 := by
  apply Nat.eq_of_testBit_eq
  intro i
  rw [computeAlignedSize, Nat.zero_add, Nat.testBit_ldiff, Nat.zero_testBit]
  cases (m.align - 1).testBit i <;> rfl

theorem Separated.batchedAllocate (h : Separated s) (size : ℕ) (n : ℤ) :
    Separated (exec s (.batchedAllocate size n)) := by
  simp only [exec]
  split
  · rename_i ps m hm
    obtain ⟨hzero, hps, _⟩ := batchedAllocate_ok_iff.mp hm
    rcases le_or_gt n 0 with hn | hn
    · rw [pieces_done hn] at hzero
      obtain rfl : n = 0 := hzero
      have htimes : s.manager.batchedAllocate 1 (0 : ℕ) = (.ok ps, m) := by
        rw [← hm]
        simp [AddressManager.batchedAllocate, carve_pieces, pieces_done]
      have hnone := (h.allocateTimes_iff Nat.one_pos 0 ps m).mp htimes
      exact (h.allocateTimes_ok hnone).2
    · have hsize : 0 < size := by
        apply Nat.pos_of_ne_zero
        rintro rfl
        rw [computeAlignedSize_zero, pieces_zero _ hn] at hzero
        omega
      obtain ⟨k, rfl⟩ := Int.eq_ofNat_of_zero_le hn.le
      exact (h.allocateTimes_ok ((h.allocateTimes_iff hsize k ps m).mp hm)).2
  · rename_i e m hm
    rw [batchedAllocate_error hm]
    exact h

theorem Separated.free (h : Separated s) {address : ℕ} {regions : List Region}
    (hne : regions ≠ []) (hsub : regions.Subperm s.live) (hchain : Chained address regions) :
    Separated (exec s (.free address regions)) := by
  obtain ⟨r, rs, rfl⟩ := exists_cons_of_ne_nil hne
  obtain ⟨rfl, _⟩ := id hchain
  have hstart := h.liveStart r (hsub.subset mem_cons_self)
  have hprev : ∀ index, ∀ p ∈ (if 0 < index then s.manager.explicitList[index - 1]? else none),
      p ∈ s.manager.explicitList := fun index p hp => mem_of_prev hp
  have hsucc : ∀ index : ℕ, ∀ c ∈ s.manager.explicitList[index]?,
      c ∈ s.manager.explicitList := fun index c hc => mem_of_getElem? hc
  refine ⟨h.align, sorted_insertFree h.sorted _ _ _, fun x => ?_,
    start_insertFree (hprev _) (hsucc _) h.freeStart hstart,
    fun t ht => h.liveStart t (diff_subset _ _ ht)⟩
  have hfree := fun index => multiplicity_insertFree (hprev index) (hsucc index)
    ⟨r.start, Region.total (r :: rs)⟩ x
  have hdiff := multiplicity_diff hsub x
  have hold := h.disjoint x
  rw [multiplicity_chained hchain] at hdiff
  have hsum : multiplicity s.manager.explicitList x +
      (if (⟨r.start, Region.total (r :: rs)⟩ : Region).Contains x then 1 else 0) +
        multiplicity (s.live.diff (r :: rs)) x ≤ if x < s.manager.size then 1 else 0 := by
    omega
  exact (Nat.add_le_add_right (hfree _) _).trans hsum

theorem Separated.sbrk (h : Separated s) (size : ℕ) : Separated (exec s (.sbrk size)) := by
  have hprev : ∀ p ∈ s.manager.explicitList.getLast?, p ∈ s.manager.explicitList :=
    fun p hp => mem_of_getLast? hp
  have hsucc : ∀ c ∈ (none : Option FreeBlock), c ∈ s.manager.explicitList := by simp
  refine ⟨h.align, sorted_insertFree h.sorted _ _ _, fun x => ?_, fun b hb => ?_, fun r hr => ?_⟩
  · have hgrown := multiplicity_insertFree hprev hsucc
      ⟨s.manager.size, s.manager.computeAlignedSize size⟩ x
    have hold := h.disjoint x
    have hsum : multiplicity s.manager.explicitList x +
        (if (⟨s.manager.size, s.manager.computeAlignedSize size⟩ : Region).Contains x
          then 1 else 0) + multiplicity s.live x ≤
        if x < s.manager.size + s.manager.computeAlignedSize size then 1 else 0 := by
      split_ifs at hold ⊢ <;> simp only [Contains, stop] at * <;> omega
    exact (Nat.add_le_add_right hgrown _).trans hsum
  · have hle := start_insertFree hprev hsucc h.freeStart le_rfl b hb
    exact hle.trans (Nat.le_add_right _ _)
  · exact (h.liveStart r hr).trans (Nat.le_add_right _ _)

theorem separated_exec (s : AddressSpace) (op : AddressOp) (h : Separated s)
    (hop : FreesLive s op) : Separated (exec s op) := by
  cases op with
  | allocate size => exact h.allocate size
  | batchedAllocate size n => exact h.batchedAllocate size n
  | free address regions => exact h.free hop.1 hop.2.1 hop.2.2
  | sbrk size => exact h.sbrk size

theorem separated_final {size alignBytes : ℕ} (halign : 0 < alignBytes) {ops : List AddressOp}
    (h : Execution.Along exec FreesLive (init size alignBytes) ops) :
    Separated (final exec (init size alignBytes) ops) :=
  invariant_final separated_exec (separated_init size halign) h

theorem batchedAllocate_repeated (heapSize alignBytes : ℕ) (halign : 0 < alignBytes)
    (ops : List AddressOp) (h : Execution.Along exec FreesLive (init heapSize alignBytes) ops)
    (size : ℕ) (hsize : 0 < size) (n : ℕ) :
    let m := (final exec (init heapSize alignBytes) ops).manager
    (∀ ps m', m.batchedAllocate size n = (.ok ps, m') ↔ allocateTimes size n m = (.ok ps, m')) ∧
      (∀ ps m', m.batchedAllocate size n = (.ok ps, m') → ps.length = n) ∧
      ∀ e m', m.batchedAllocate size n = (.error e, m') → m' = m := by
  intro m
  have hs := separated_final halign h
  refine ⟨fun ps m' => hs.allocateTimes_iff hsize n ps m', fun ps m' hm => ?_,
    fun e m' hm => batchedAllocate_error hm⟩
  exact (hs.allocateTimes_ok ((hs.allocateTimes_iff hsize n ps m').mp hm)).1

def emptyRegionOps : List AddressOp :=
  [.allocate 4, .allocate 0, .allocate 7, .free 4 [⟨4, 8⟩], .free 0 [⟨0, 4⟩], .free 4 [⟨4, 0⟩]]

theorem batchedAllocate_repeated_emptyRegionOps :
    Execution.Along exec FreesLive (init 22 4) emptyRegionOps ∧ 0 < 4 ∧ 0 < 3 ∧
      ((final exec (init 22 4) emptyRegionOps).manager.batchedAllocate 3 4 =
          (.ok [(0, 4), (4, 4), (8, 4), (12, 4)], ⟨22, 4, [⟨4, 0⟩, ⟨16, 6⟩], 16⟩) ↔
        allocateTimes 3 4 (final exec (init 22 4) emptyRegionOps).manager =
          (.ok [(0, 4), (4, 4), (8, 4), (12, 4)], ⟨22, 4, [⟨4, 0⟩, ⟨16, 6⟩], 16⟩)) := by
  have h : Execution.Along exec FreesLive (init 22 4) emptyRegionOps := by
    simp only [emptyRegionOps, along_cons, along_nil]
    decide +kernel
  exact ⟨h, by decide, by decide,
    (batchedAllocate_repeated 22 4 (by decide) emptyRegionOps h 3 (by decide) 4).1 _ _⟩

end AddressSpace

end LMCache
