import LMCache.Foundations.Execution
import LMCache.Foundations.Offsets
import LMCache.MemoryManagement.Carving

namespace LMCache

open Region hiding size total start

structure AddressSpace where
  manager : AddressManager
  live : List Region

inductive AddressOp where
  | allocate (size : ℕ)
  | batchedAllocate (size : ℕ) (batchSize : ℤ)
  | free (address : ℕ) (regions : List Region)
  | sbrk (size : ℕ)

namespace AddressSpace

open AddressManager hiding size align init allocate batchedAllocate free sbrk

def init (size alignBytes : ℕ) : AddressSpace := ⟨AddressManager.init size alignBytes, []⟩

def exec (s : AddressSpace) : AddressOp → AddressSpace
  | .allocate size =>
      match s.manager.allocate size with
      | (.ok p, m) => ⟨m, s.live ++ [asRegion p]⟩
      | (.error _, m) => ⟨m, s.live⟩
  | .batchedAllocate size batchSize =>
      match s.manager.batchedAllocate size batchSize with
      | (.ok ps, m) => ⟨m, s.live ++ ps.map asRegion⟩
      | (.error _, m) => ⟨m, s.live⟩
  | .free address regions =>
      ⟨s.manager.free address (Region.total regions), s.live.diff regions⟩
  | .sbrk size => ⟨s.manager.sbrk size, s.live⟩

def Allowed (s : AddressSpace) : AddressOp → Prop
  | .allocate size => 0 < size
  | .batchedAllocate size _ => 0 < size
  | .free address regions => regions ≠ [] ∧ regions.Subperm s.live ∧ Chained address regions
  | .sbrk _ => True

instance (s : AddressSpace) (op : AddressOp) : Decidable (Allowed s op) := by
  cases op <;> simp only [Allowed] <;> infer_instance

structure Tiled (k : ℕ) (s : AddressSpace) : Prop where
  align : s.manager.align = 2 ^ k
  sorted : s.manager.explicitList.Pairwise Before
  cover : ∀ x, multiplicity s.manager.explicitList x + multiplicity s.live x =
    if x < s.manager.size then 1 else 0
  total : Region.total s.manager.explicitList + Region.total s.live = s.manager.size
  allocated : s.manager.totalAllocatedSize = Region.total s.live
  startDvd : ∀ b ∈ s.manager.explicitList, 2 ^ k ∣ b.start
  stopLe : ∀ b ∈ s.manager.explicitList, b.stop ≤ s.manager.size
  emptyStart : ∀ b ∈ s.manager.explicitList, b.size = 0 → b.start = s.manager.size
  liveDvd : ∀ r ∈ s.live, 2 ^ k ∣ r.start ∧ 2 ^ k ∣ r.size ∧ 0 < r.size

theorem tiled_init (k size : ℕ) : Tiled k (init size (2 ^ k)) where
  align := rfl
  sorted := List.pairwise_singleton _ _
  cover x := by
    by_cases hx : x < size <;>
      simp [init, AddressManager.init, SortedList.add, multiplicity_cons, Contains, hx]
  total := by simp [init, AddressManager.init, SortedList.add]
  allocated := rfl
  startDvd := by simp [init, AddressManager.init, SortedList.add]
  stopLe := by simp [init, AddressManager.init, SortedList.add]
  emptyStart := by simp [init, AddressManager.init, SortedList.add, eq_comm]
  liveDvd := by simp [init]

variable {k : ℕ} {s : AddressSpace}

theorem Tiled.computeAlignedSize_eq (h : Tiled k s) (size : ℕ) :
    s.manager.computeAlignedSize size = Alignment.roundUp k size := by
  rw [computeAlignedSize, h.align, Alignment.roundUp]

theorem Tiled.dvd_computeAlignedSize (h : Tiled k s) (size : ℕ) :
    2 ^ k ∣ s.manager.computeAlignedSize size := by
  rw [h.computeAlignedSize_eq]
  exact Alignment.dvd_roundUp k size

theorem Tiled.le_computeAlignedSize (h : Tiled k s) (size : ℕ) :
    size ≤ s.manager.computeAlignedSize size := by
  rw [h.computeAlignedSize_eq]
  exact Alignment.le_roundUp k size

theorem Tiled.take (h : Tiled k s) {a : ℕ} (hdvd : 2 ^ k ∣ a) (hpos : 0 < a) (n : ℤ) :
    Tiled k ⟨{ s.manager with
        explicitList := carved a n s.manager.explicitList
        totalAllocatedSize := s.manager.totalAllocatedSize +
          a * (pieces a s.manager.explicitList n).allocateResult.length },
      s.live ++ (pieces a s.manager.explicitList n).allocateResult.map asRegion⟩ where
  align := h.align
  sorted := carved_pairwise h.sorted
  cover x := by
    dsimp only
    rw [← h.cover x, ← carved_multiplicity a n s.manager.explicitList x, multiplicity_append]
    omega
  total := by
    have htotal := h.total
    rw [← carved_total a n s.manager.explicitList] at htotal
    dsimp only
    rw [total_append]
    omega
  allocated := by
    rw [total_append, total_allocateResult, h.allocated]
    push_cast
    rfl
  startDvd b hb := by
    obtain ⟨c, hc, i, hstart, _⟩ := mem_carved b hb
    rw [hstart]
    exact Nat.dvd_add (h.startDvd c hc) (hdvd.mul_left i)
  stopLe b hb := by
    obtain ⟨c, hc, i, _, hstop, _⟩ := mem_carved b hb
    rw [hstop]
    exact h.stopLe c hc
  emptyStart b hb h0 := by
    obtain ⟨c, hc, i, _, _, hsame⟩ := mem_carved b hb
    have hbc := hsame h0
    subst hbc
    exact h.emptyStart b hc h0
  liveDvd r hr := by
    rcases List.mem_append.mp hr with hr | hr
    · exact h.liveDvd r hr
    · obtain ⟨p, hp, rfl⟩ := List.mem_map.mp hr
      obtain ⟨b, hb, i, rfl⟩ := mem_allocateResult p hp
      exact ⟨Nat.dvd_add (h.startDvd b hb) (hdvd.mul_left i), hdvd, hpos⟩

variable {bs : List FreeBlock} {b : FreeBlock}

theorem pieces_one {a : ℕ} (ha : 0 < a)
    (h : bs.find? (fun block => decide (a ≤ block.size)) = some b) :
    pieces a bs 1 = ⟨0, [(b.start, a)], [b], tailOf a b 1⟩ := by
  induction bs with
  | nil => simp at h
  | cons c bs ih =>
    by_cases hc : a ≤ c.size
    · have hcb : c = b := by simpa [List.find?_cons, hc] using h
      have hshare : share a 1 c = 1 := by
        have : 1 ≤ c.size / a := (Nat.one_le_div_iff ha).mpr hc
        simp only [share]
        omega
      rw [pieces_take Int.one_pos hc, hshare, pieces_done (by simp), hcb]
      simp [slices]
    · rw [pieces_skip Int.one_pos (not_le.mp hc)]
      exact ih (by simpa [List.find?_cons, hc] using h)

variable {m m' : AddressManager} {size : ℕ} {p : ℕ × ℕ}

theorem allocate_ok (ha : 0 < m.computeAlignedSize size) (hbs : m.explicitList.Pairwise Before)
    (h : m.allocate size = (.ok p, m')) :
    (pieces (m.computeAlignedSize size) m.explicitList 1).allocateResult = [p] ∧
      m' = { m with
        explicitList := carved (m.computeAlignedSize size) 1 m.explicitList
        totalAllocatedSize := m.totalAllocatedSize + m.computeAlignedSize size } := by
  unfold AddressManager.allocate at h
  simp only at h
  split at h
  · simp at h
  · rename_i b hfind
    obtain ⟨hp, hm⟩ := Prod.mk.inj h
    have hone := pieces_one ha hfind
    have hlist := update_eq_carved (a := m.computeAlignedSize size) (n := 1) hbs
    rw [hone] at hlist ⊢
    refine ⟨by rw [Except.ok.inj hp], ?_⟩
    rw [← hm, ← hlist]
    by_cases hlt : m.computeAlignedSize size < b.size <;> simp [tailOf, hlt]

variable {ps : List (ℕ × ℕ)} {n : ℤ}

theorem batchedAllocate_ok (hbs : m.explicitList.Pairwise Before)
    (h : m.batchedAllocate size n = (.ok ps, m')) :
    ps = (pieces (m.computeAlignedSize size) m.explicitList n).allocateResult ∧
      (ps.length : ℤ) = n ∧
      m' = { m with
        explicitList := carved (m.computeAlignedSize size) n m.explicitList
        totalAllocatedSize := m.totalAllocatedSize + m.computeAlignedSize size * ps.length } := by
  unfold AddressManager.batchedAllocate at h
  simp only at h
  split_ifs at h with hrem hlen
  · simp at h
  · simp at h
  · obtain ⟨hps, hm⟩ := Prod.mk.inj h
    rw [not_not] at hlen
    have hps' := Except.ok.inj hps
    rw [← hm, ← hps']
    refine ⟨rfl, hlen, ?_⟩
    rw [← update_eq_carved hbs, hlen]
    rfl

variable {e : RuntimeError}

theorem allocate_error (h : m.allocate size = (.error e, m')) : m' = m := by
  unfold AddressManager.allocate at h
  simp only at h
  split at h
  · exact (Prod.mk.inj h).2.symm
  · simp at h

theorem batchedAllocate_error (h : m.batchedAllocate size n = (.error e, m')) : m' = m := by
  unfold AddressManager.batchedAllocate at h
  simp only at h
  split_ifs at h
  · exact (Prod.mk.inj h).2.symm
  · exact (Prod.mk.inj h).2.symm
  · simp at h

theorem Tiled.allocate (h : Tiled k s) (hsize : 0 < size) : Tiled k (exec s (.allocate size)) := by
  have hpos := hsize.trans_le (h.le_computeAlignedSize size)
  simp only [exec]
  split
  · rename_i p m hm
    obtain ⟨hres, rfl⟩ := allocate_ok hpos h.sorted hm
    have := h.take (h.dvd_computeAlignedSize size) hpos 1
    rw [hres] at this
    simpa using this
  · rename_i e m hm
    rw [allocate_error hm]
    exact h

theorem Tiled.batchedAllocate (h : Tiled k s) (hsize : 0 < size) (n : ℤ) :
    Tiled k (exec s (.batchedAllocate size n)) := by
  have hpos := hsize.trans_le (h.le_computeAlignedSize size)
  simp only [exec]
  split
  · rename_i ps m hm
    obtain ⟨rfl, _, rfl⟩ := batchedAllocate_ok h.sorted hm
    exact h.take (h.dvd_computeAlignedSize size) hpos n
  · rename_i e m hm
    rw [batchedAllocate_error hm]
    exact h

variable {regions : List Region} {address : ℕ}

theorem Tiled.regions_le (h : Tiled k s) (hsub : regions.Subperm s.live)
    (hchain : Chained address regions) (hpos : 0 < Region.total regions) :
    address + Region.total regions ≤ s.manager.size := by
  have hle : multiplicity regions (address + Region.total regions - 1) ≤
      multiplicity s.live (address + Region.total regions - 1) := hsub.countP_le _
  have hcover := h.cover (address + Region.total regions - 1)
  rw [multiplicity_chained hchain, if_pos (by simp only [Contains, stop]; omega)] at hle
  split_ifs at hcover with hx
  · omega
  · omega

theorem Tiled.apart_regions (h : Tiled k s) (hsub : regions.Subperm s.live)
    (hchain : Chained address regions) (hb : b ∈ s.manager.explicitList) :
    Apart b ⟨address, Region.total regions⟩ := by
  intro x ⟨hbx, hrx⟩
  have hle : multiplicity regions x ≤ multiplicity s.live x := hsub.countP_le _
  have hfree : 0 < multiplicity s.manager.explicitList x :=
    contains_of_multiplicity_pos.mpr ⟨b, hb, hbx⟩
  have hcover := h.cover x
  rw [multiplicity_chained hchain, if_pos hrx] at hle
  split_ifs at hcover <;> omega

theorem total_pos_of_subperm (h : Tiled k s) (hne : regions ≠ []) (hsub : regions.Subperm s.live) :
    0 < Region.total regions := by
  obtain ⟨r, rs, rfl⟩ := List.exists_cons_of_ne_nil hne
  have := (h.liveDvd r (hsub.subset (by simp))).2.2
  rw [total_cons]
  omega

theorem dvd_address (h : Tiled k s) (hne : regions ≠ []) (hsub : regions.Subperm s.live)
    (hchain : Chained address regions) : 2 ^ k ∣ address := by
  obtain ⟨r, rs, rfl⟩ := List.exists_cons_of_ne_nil hne
  obtain ⟨rfl, _⟩ := hchain
  exact (h.liveDvd r (hsub.subset (by simp))).1

theorem getElem?_pred_length (pre post : List FreeBlock) :
    (if 0 < pre.length then (pre ++ post)[pre.length - 1]? else none) = pre.getLast? := by
  rcases List.eq_nil_or_concat pre with rfl | ⟨init, p, rfl⟩
  · rfl
  · simp

theorem free_eq {m : AddressManager} {address size : ℕ} {pre post : List FreeBlock}
    (hlist : m.explicitList = pre ++ post) (hpre : ∀ b ∈ pre, b.start < address)
    (hpost : ∀ b ∈ post, address ≤ b.start) :
    m.free address size = { m with
      explicitList := insertFree (pre ++ post) ⟨address, size⟩ pre.getLast? post.head?
      totalAllocatedSize := m.totalAllocatedSize - size } := by
  have hindex : SortedList.bisectLeft ⟨address, size⟩ (pre ++ post) = pre.length :=
    SortedList.bisectLeft_append hpre hpost
  simp only [AddressManager.free, hlist, hindex, getElem?_pred_length]
  rw [List.getElem?_append_right le_rfl, Nat.sub_self, List.head?_eq_getElem?]

theorem split_at (address : ℕ) (hbs : bs.Pairwise Before) :
    ∃ pre post, bs = pre ++ post ∧ (∀ b ∈ pre, b.start < address) ∧
      ∀ b ∈ post, address ≤ b.start := by
  induction bs with
  | nil => exact ⟨[], [], rfl, by simp, by simp⟩
  | cons b bs ih =>
    obtain ⟨hb, hrest⟩ := List.pairwise_cons.mp hbs
    by_cases hlt : b.start < address
    · obtain ⟨pre, post, rfl, hpre, hpost⟩ := ih hrest
      refine ⟨b :: pre, post, rfl, ?_, hpost⟩
      simpa [hlt] using hpre
    · refine ⟨[], b :: bs, rfl, by simp, fun c hc => ?_⟩
      rcases List.mem_cons.mp hc with rfl | hc
      · omega
      · have := start_lt_of_before (hb c hc)
        omega

theorem Tiled.free (h : Tiled k s) (hne : regions ≠ []) (hsub : regions.Subperm s.live)
    (hchain : Chained address regions) :
    Tiled k (exec s (.free address regions)) := by
  have hpos := total_pos_of_subperm h hne hsub
  have hle := h.regions_le hsub hchain hpos
  obtain ⟨pre, post, hlist, hpre, hpost⟩ := split_at address h.sorted
  have hpreStop : ∀ b ∈ pre, b.stop ≤ address := fun b hb =>
    (h.apart_regions hsub hchain (by simp [hlist, hb])).stop_le hpos (hpre b hb).le
  have hpostStart : ∀ b ∈ post, address + Region.total regions ≤ b.start := by
    intro b hb
    have hmem : b ∈ s.manager.explicitList := by simp [hlist, hb]
    by_cases h0 : b.size = 0
    · rw [h.emptyStart b hmem h0]
      exact hle
    · exact Apart.stop_le (r := ⟨address, _⟩) (fun x hx => h.apart_regions hsub hchain hmem x hx.symm)
        (Nat.pos_of_ne_zero h0) (hpost b hb)
  have hins := inserted_insertFree (r := ⟨address, Region.total regions⟩)
    (hlist ▸ h.sorted) hpreStop hpostStart
  have hfree := total_diff hsub
  simp only [exec, free_eq hlist hpre hpost]
  rw [← hlist] at hins ⊢
  refine ⟨h.align, hins.pairwise, fun x => ?_, ?_, ?_, fun b hb => ?_, fun b hb => ?_,
    fun b hb h0 => ?_, fun r hr => h.liveDvd r (List.diff_subset _ _ hr)⟩
  · have hx := h.cover x
    rw [← multiplicity_diff hsub x, multiplicity_chained hchain] at hx
    dsimp only
    rw [hins.multiplicity, multiplicity_cons, ← hx]
    omega
  · rw [hins.total, ← h.total]
    simp only
    omega
  · rw [h.allocated, ← hfree]
    push_cast
    ring
  · rcases hins.start b hb with ⟨hb, _⟩ | ⟨c, hc, hb⟩
    · rw [hb]
      exact dvd_address h hne hsub hchain
    · rw [hb]
      exact h.startDvd c hc
  · rcases hins.stop b hb with hb | ⟨c, hc, hb⟩
    · rw [hb]
      exact hle
    · rw [hb]
      exact h.stopLe c hc
  · rcases hins.empty b hb h0 with rfl | hb
    · simp only at h0
      omega
    · exact h.emptyStart b hb h0

theorem before_or_before (hbs : bs.Pairwise Before) {b c : FreeBlock} (hb : b ∈ bs) (hc : c ∈ bs)
    (hne : b ≠ c) : Before b c ∨ Before c b := by
  induction bs with
  | nil => simp at hb
  | cons d bs ih =>
    obtain ⟨hd, hrest⟩ := List.pairwise_cons.mp hbs
    rcases List.mem_cons.mp hb with rfl | hb' <;> rcases List.mem_cons.mp hc with rfl | hc'
    · exact absurd rfl hne
    · exact .inl (hd c hc')
    · exact .inr (hd b hb')
    · exact ih hrest hb' hc'

theorem Tiled.dvd_size (h : Tiled k s) (hend : ∀ b ∈ s.manager.explicitList, b.stop ≠ s.manager.size) :
    2 ^ k ∣ s.manager.size := by
  rcases Nat.eq_zero_or_pos s.manager.size with h0 | hpos
  · rw [h0]
    exact dvd_zero _
  · have hlast := h.cover (s.manager.size - 1)
    have hout := h.cover s.manager.size
    rw [if_pos (by omega)] at hlast
    rw [if_neg (by omega)] at hout
    have hnot : multiplicity s.manager.explicitList (s.manager.size - 1) = 0 := by
      by_contra hne
      obtain ⟨b, hb, hx⟩ := contains_of_multiplicity_pos.mp (Nat.pos_of_ne_zero hne)
      have := h.stopLe b hb
      have := hend b hb
      simp only [Contains] at hx
      omega
    obtain ⟨r, hr, hx⟩ := contains_of_multiplicity_pos.mp
      (by omega : 0 < multiplicity s.live (s.manager.size - 1))
    have hstop : r.stop = s.manager.size := by
      by_contra hne
      have : 0 < multiplicity s.live s.manager.size :=
        contains_of_multiplicity_pos.mpr ⟨r, hr, by simp only [Contains] at hx ⊢; omega⟩
      omega
    rw [← hstop]
    exact Nat.dvd_add (h.liveDvd r hr).1 (h.liveDvd r hr).2.1

theorem Tiled.sbrk (h : Tiled k s) (size : ℕ) : Tiled k (exec s (.sbrk size)) := by
  have hins := inserted_insertFree (r := ⟨s.manager.size, s.manager.computeAlignedSize size⟩)
    (by simpa using h.sorted) h.stopLe
    (fun b (hb : b ∈ ([] : List FreeBlock)) => absurd hb List.not_mem_nil)
  simp only [List.append_nil, List.head?_nil] at hins
  have hdvd := h.dvd_computeAlignedSize size
  simp only [exec, AddressManager.sbrk]
  generalize s.manager.computeAlignedSize size = a at hins hdvd
  refine ⟨h.align, hins.pairwise, fun x => ?_, ?_, h.allocated, fun b hb => ?_, fun b hb => ?_,
    fun b hb h0 => ?_, h.liveDvd⟩
  · have hx := h.cover x
    simp only
    rw [hins.multiplicity, multiplicity_cons]
    split_ifs at hx ⊢ <;> simp only [Contains, stop] at * <;> omega
  · simp only
    rw [hins.total, ← h.total]
    simp only
    omega
  · rcases hins.start b hb with ⟨hb, hend⟩ | ⟨c, hc, hb⟩
    · rw [hb]
      exact h.dvd_size hend
    · rw [hb]
      exact h.startDvd c hc
  · rcases hins.stop b hb with hb | ⟨c, hc, hb⟩
    · exact hb.le
    · have := h.stopLe c hc
      simp only
      omega
  · rcases hins.empty b hb h0 with rfl | hold
    · simp only at h0
      simp [h0]
    · have hstart := h.emptyStart b hold h0
      by_contra hne
      have hx : 0 < multiplicity (insertFree s.manager.explicitList ⟨s.manager.size, a⟩
          s.manager.explicitList.getLast? none) s.manager.size := by
        have hne' : s.manager.size ≠ s.manager.size + a := hstart ▸ hne
        rw [hins.multiplicity, multiplicity_cons, if_pos (by simp only [Contains, stop]; omega)]
        omega
      obtain ⟨d, hd, hdx⟩ := contains_of_multiplicity_pos.mp hx
      have hdb : d ≠ b := by
        rintro rfl
        simp only [Contains, stop] at hdx
        omega
      have hsep := before_or_before hins.pairwise hd hb hdb
      simp only [Before, Contains, stop] at hsep hdx
      omega

theorem tiled_exec (s : AddressSpace) (op : AddressOp) (h : Tiled k s) (hop : Allowed s op) :
    Tiled k (exec s op) := by
  cases op with
  | allocate size => exact h.allocate hop
  | batchedAllocate size n => exact h.batchedAllocate hop n
  | free address regions => exact h.free hop.1 hop.2.1 hop.2.2
  | sbrk size => exact h.sbrk size

theorem tiled_final (k size : ℕ) {ops : List AddressOp}
    (h : Execution.Along exec Allowed (init size (2 ^ k)) ops) :
    Tiled k (Execution.final exec (init size (2 ^ k)) ops) :=
  Execution.invariant_final tiled_exec (tiled_init k size) h

theorem Tiled.pairwise_apart (h : Tiled k s) :
    (s.manager.explicitList ++ s.live).Pairwise Apart := by
  refine Region.pairwise_apart fun x => ?_
  rw [multiplicity_append, h.cover x]
  split_ifs <;> omega

theorem Tiled.lt_size_iff (h : Tiled k s) (x : ℕ) :
    x < s.manager.size ↔ ∃ r ∈ s.manager.explicitList ++ s.live, r.Contains x := by
  rw [← contains_of_multiplicity_pos, multiplicity_append, h.cover x]
  split_ifs with hx <;> simp [hx]

def Uncoalescible (b c : FreeBlock) : Prop :=
  b.start < c.start ∧ FreeBlock.canBeCoalesced b c = false

theorem Tiled.uncoalescible (h : Tiled k s) : s.manager.explicitList.Pairwise Uncoalescible := by
  refine h.sorted.imp fun {b c} hbc => ⟨start_lt_of_before hbc, ?_⟩
  simp only [Before, stop] at hbc
  simp only [FreeBlock.canBeCoalesced, beq_eq_false_iff_ne]
  omega

theorem zip_dropLast_tail (h : bs.Pairwise Uncoalescible) :
    ∀ p ∈ bs.dropLast.zip bs.tail, FreeBlock.canBeCoalesced p.1 p.2 = false := by
  induction bs with
  | nil => simp
  | cons b bs ih =>
    cases bs with
    | nil => simp
    | cons c bs =>
      obtain ⟨hb, hrest⟩ := List.pairwise_cons.mp h
      intro p hp
      simp only [List.dropLast_cons_cons, List.tail_cons, List.zip_cons_cons, List.mem_cons] at hp
      rcases hp with rfl | hp
      · exact (hb c (by simp)).2
      · exact ih hrest p hp

theorem Tiled.checkConsistency (h : Tiled k s) : s.manager.checkConsistency = true := by
  have hzip := zip_dropLast_tail h.uncoalescible
  have hany : (s.manager.explicitList.dropLast.zip s.manager.explicitList.tail).any
      (fun p => FreeBlock.canBeCoalesced p.1 p.2) = false := by
    simpa only [List.any_eq_false, Bool.not_eq_true] using hzip
  have htotal : (Region.total s.manager.explicitList : ℤ) + Region.total s.live =
      s.manager.size := by exact_mod_cast h.total
  simp only [AddressManager.checkConsistency, hany, Bool.false_eq_true, if_false, h.allocated]
  simpa [Region.total] using htotal

theorem Tiled.dvd_allocate (h : Tiled k s) (hsize : 0 < size) {m : AddressManager}
    (hm : s.manager.allocate size = (.ok p, m)) : 2 ^ k ∣ p.1 := by
  have hpos := hsize.trans_le (h.le_computeAlignedSize size)
  have hnext := h.allocate hsize
  simp only [exec, hm] at hnext
  exact (hnext.liveDvd (asRegion p) (by simp)).1

theorem Tiled.dvd_batchedAllocate (h : Tiled k s) (hsize : 0 < size) {m : AddressManager}
    (hm : s.manager.batchedAllocate size n = (.ok ps, m)) :
    ∀ p ∈ ps, 2 ^ k ∣ p.1 := by
  intro p hp
  have hnext := h.batchedAllocate hsize n
  simp only [exec, hm] at hnext
  exact (hnext.liveDvd (asRegion p) (List.mem_append_right _ (List.mem_map_of_mem hp))).1

theorem tiling (k size : ℕ) (ops : List AddressOp)
    (h : Execution.Along exec Allowed (init size (2 ^ k)) ops) :
    let s := Execution.final exec (init size (2 ^ k)) ops
    (s.manager.explicitList ++ s.live).Pairwise Apart ∧
    (∀ x, x < s.manager.size ↔ ∃ r ∈ s.manager.explicitList ++ s.live, r.Contains x) ∧
    (∀ r ∈ s.live, 2 ^ k ∣ r.start) ∧
    (∀ size p m, 0 < size → s.manager.allocate size = (.ok p, m) → 2 ^ k ∣ p.1) ∧
    (∀ size n ps m, 0 < size → s.manager.batchedAllocate size n = (.ok ps, m) →
      ∀ p ∈ ps, 2 ^ k ∣ p.1) ∧
    s.manager.explicitList.Pairwise Uncoalescible ∧
    s.manager.totalAllocatedSize = (s.live.map Region.size).sum ∧
    s.manager.checkConsistency = true ∧
    (∀ size e m, s.manager.allocate size = (.error e, m) → m = s.manager) ∧
    (∀ size n e m, s.manager.batchedAllocate size n = (.error e, m) → m = s.manager) := by
  intro s
  have ht : Tiled k s := tiled_final k size h
  refine ⟨ht.pairwise_apart, ht.lt_size_iff, fun r hr => (ht.liveDvd r hr).1,
    fun _ _ _ hsize hm => ht.dvd_allocate hsize hm,
    fun _ _ _ _ hsize hm => ht.dvd_batchedAllocate hsize hm, ht.uncoalescible, ht.allocated,
    ht.checkConsistency, fun _ _ _ hm => allocate_error hm, fun _ _ _ _ hm => batchedAllocate_error hm⟩

def sampleOps : List AddressOp :=
  [.allocate 3, .batchedAllocate 5 2, .free 0 [⟨0, 4⟩], .sbrk 7, .free 4 [⟨4, 8⟩, ⟨12, 8⟩]]

theorem tiling_sampleOps :
    Execution.Along exec Allowed (init 22 (2 ^ 2)) sampleOps ∧
      (Execution.final exec (init 22 (2 ^ 2)) sampleOps).manager.checkConsistency = true := by
  have h : Execution.Along exec Allowed (init 22 (2 ^ 2)) sampleOps := by
    simp only [sampleOps, Execution.along_cons, Execution.along_nil]
    decide +kernel
  exact ⟨h, (tiling 2 22 sampleOps h).2.2.2.2.2.2.2.1⟩

end AddressSpace

end LMCache
