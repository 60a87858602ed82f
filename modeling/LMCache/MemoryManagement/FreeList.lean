import LMCache.MemoryManagement.AddressManager

namespace LMCache

open Region List SortedList Option

namespace SortedList

theorem add_perm (b : FreeBlock) (bs : List FreeBlock) : (add b bs).Perm (b :: bs) := by
  induction bs with
  | nil => exact .refl _
  | cons c cs ih =>
    simp only [add]
    split_ifs with h
    · exact (ih.cons c).trans (.swap b c cs)
    · exact .refl _

theorem mem_add {b c : FreeBlock} {bs : List FreeBlock} : c ∈ add b bs ↔ c = b ∨ c ∈ bs := by
  rw [(add_perm b bs).mem_iff, mem_cons]

theorem add_of_le {b c : FreeBlock} {bs : List FreeBlock} (h : c.start ≤ b.start) :
    add b (c :: bs) = c :: add b bs := by simp [add, h]

variable {b : FreeBlock}

theorem add_front {bs : List FreeBlock} (h : ∀ c ∈ bs, b.start < c.start) : add b bs = b :: bs := by
  cases bs with
  | nil => rfl
  | cons c cs => simp [add, Nat.not_le.mpr (h c (by simp))]

theorem pairwise_add {bs : List FreeBlock} (hbs : bs.Pairwise Before)
    (hb : ∀ c ∈ bs, Before b c ∨ Before c b) : (add b bs).Pairwise Before := by
  induction bs with
  | nil => simp [add]
  | cons c cs ih =>
    obtain ⟨hc, hcs⟩ := pairwise_cons.mp hbs
    have hsep : ∀ d ∈ cs, Before b d ∨ Before d b := fun d hd => hb d (by simp [hd])
    simp only [add]
    split_ifs with h
    · refine .cons (fun d hd => ?_) (ih hcs hsep)
      rcases mem_add.mp hd with rfl | hd
      · rcases hb c (by simp) with hbc | hcb
        · have := start_le_stop d
          simp only [Before] at hbc
          omega
        · exact hcb
      · exact hc d hd
    · have hbc : Before b c := by
        rcases hb c (by simp) with hbc | hcb
        · exact hbc
        · have := start_le_stop c
          simp only [Before] at hcb
          omega
      refine .cons (fun d hd => ?_) hbs
      rcases mem_cons.mp hd with rfl | hd
      · exact hbc
      · have hcd := hc d hd
        have := start_le_stop c
        simp only [Before] at hbc hcd ⊢
        omega

theorem bisectLeft_append {pre post : List FreeBlock} (hpre : ∀ c ∈ pre, c.start < b.start)
    (hpost : ∀ c ∈ post, b.start ≤ c.start) :
    bisectLeft b (pre ++ post) = pre.length := by
  have hstop : post.takeWhile (fun c => decide (c.start < b.start)) = [] := by
    cases post with
    | nil => rfl
    | cons c cs => simp [Nat.not_lt.mpr (hpost c (by simp))]
  rw [bisectLeft, takeWhile_append_of_pos (by simpa using hpre), hstop, append_nil]

end SortedList

variable {pre post : List FreeBlock}

theorem replace_append_cons {p q : FreeBlock} (h : p ∉ pre) :
    (pre ++ p :: post).replace p q = pre ++ q :: post := by
  induction pre with
  | nil => simp
  | cons c cs ih =>
    rw [mem_cons, not_or] at h
    have hc : (p == c) = false := by simpa using h.1
    simp [replace_cons, hc, ih h.2]

theorem not_mem_of_before {b : FreeBlock} {bs : List FreeBlock} (h : ∀ c ∈ bs, Before c b) :
    b ∉ bs := by
  intro hb
  have hlt : b.stop < b.start := h b hb
  have := start_le_stop b
  omega

theorem not_mem_of_after {b : FreeBlock} {bs : List FreeBlock} (h : ∀ c ∈ bs, Before b c) :
    b ∉ bs := by
  intro hb
  have hlt : b.stop < b.start := h b hb
  have := start_le_stop b
  omega

structure Inserted (bs : List FreeBlock) (r : Region) (bs' : List FreeBlock) : Prop where
  pairwise : bs'.Pairwise Before
  multiplicity : ∀ x, multiplicity bs' x = Region.multiplicity (r :: bs) x
  total : Region.total bs' = r.size + Region.total bs
  start : ∀ b ∈ bs', (b.start = r.start ∧ ∀ c ∈ bs, c.stop ≠ r.start) ∨
    ∃ c ∈ bs, b.start = c.start
  stop : ∀ b ∈ bs', b.stop = r.stop ∨ ∃ c ∈ bs, b.stop = c.stop
  empty : ∀ b ∈ bs', b.size = 0 → b = r ∨ b ∈ bs

variable {bs : List FreeBlock} {r : Region}

theorem inserted_add (hbs : bs.Pairwise Before) (hr : ∀ c ∈ bs, Before r c ∨ Before c r) :
    Inserted bs r (add r bs) where
  pairwise := pairwise_add hbs hr
  multiplicity := multiplicity_perm (add_perm r bs)
  total := by rw [total_perm (add_perm r bs), total_cons]
  start b hb := by
    rcases mem_add.mp hb with rfl | hb
    · refine .inl ⟨rfl, fun c hc => ?_⟩
      have := hr c hc
      have := start_le_stop b
      have := start_le_stop c
      simp only [Before] at *
      omega
    · exact .inr ⟨b, hb, rfl⟩
  stop b hb := (mem_add.mp hb).imp (congrArg _) (fun h => ⟨b, h, rfl⟩)
  empty b hb _ := mem_add.mp hb

theorem inserted_replace (olds : List FreeBlock) {p m : FreeBlock}
    (hbs : (pre ++ (olds ++ post)).Pairwise Before) (hp : p ∈ olds) (hstart : m.start = p.start)
    (hpost : ∀ c ∈ post, Before m c) (hcount : ∀ x, multiplicity [m] x = multiplicity (r :: olds) x)
    (hsize : m.size = r.size + total olds) (hstop : m.stop = r.stop ∨ ∃ c ∈ olds, m.stop = c.stop)
    (hempty : m.size = 0 → m ∈ olds) : Inserted (pre ++ (olds ++ post)) r (pre ++ m :: post) := by
  obtain ⟨hpre, htail, hcross⟩ := pairwise_append.mp hbs
  obtain ⟨_, hposts, _⟩ := pairwise_append.mp htail
  have hold : ∀ c ∈ olds, c ∈ pre ++ (olds ++ post) := fun c hc => by simp [hc]
  have hmem : ∀ b ∈ pre ++ m :: post, b = m ∨ b ∈ pre ++ (olds ++ post) := by
    intro b hb
    simp only [mem_append, mem_cons] at hb ⊢
    tauto
  refine ⟨pairwise_append.mpr ⟨hpre, .cons hpost hposts, fun b hb c hc => ?_⟩, fun x => ?_, ?_,
    fun b hb => ?_, fun b hb => ?_, fun b hb h0 => ?_⟩
  · rcases mem_cons.mp hc with rfl | hc
    · rw [Before, hstart]
      exact hcross b hb p (mem_append_left _ hp)
    · exact hcross b hb c (mem_append_right _ hc)
  · have hx := hcount x
    simp only [multiplicity_append, multiplicity_cons, multiplicity_nil] at hx ⊢
    omega
  · simp only [total_append, total_cons, hsize]
    omega
  · rcases hmem b hb with rfl | hb
    · exact .inr ⟨p, hold p hp, hstart⟩
    · exact .inr ⟨b, hb, rfl⟩
  · rcases hmem b hb with rfl | hb
    · exact hstop.imp_right fun ⟨c, hc, h⟩ => ⟨c, hold c hc, h⟩
    · exact .inr ⟨b, hb, rfl⟩
  · rcases hmem b hb with rfl | hb
    · exact .inr (hold _ (hempty h0))
    · exact .inr hb

variable {p : FreeBlock}

theorem inserted_merge_prev (hbs : (pre ++ p :: post).Pairwise Before) (hp : p.stop = r.start)
    (hpost : ∀ c ∈ post, Before r c) :
    Inserted (pre ++ p :: post) r (pre ++ ⟨p.start, p.size + r.size⟩ :: post) := by
  have hstop : p.start + (p.size + r.size) = r.stop := by simp only [stop] at hp ⊢; omega
  refine inserted_replace [p] hbs mem_cons_self rfl (fun c hc => ?_) (fun x => ?_)
    (Nat.add_comm _ _) (.inl hstop) fun h0 => ?_
  · exact hstop.trans_lt (hpost c hc)
  · simp only [multiplicity_cons]
    split_ifs <;> simp only [Contains, stop] at * <;> omega
  · obtain ⟨_, hr⟩ : p.size = 0 ∧ r.size = 0 := by simpa using h0
    simp [hr]

variable {s : FreeBlock}

theorem inserted_merge_succ (hbs : (pre ++ s :: post).Pairwise Before) (hs : r.stop = s.start)
    (hpre : ∀ c ∈ pre, Before c r) :
    Inserted (pre ++ s :: post) r (add ⟨s.start - r.size, s.size + r.size⟩
      ((pre ++ s :: post).erase s)) := by
  obtain ⟨hpres, htail, hcross⟩ := pairwise_append.mp hbs
  obtain ⟨hafter, hposts⟩ := pairwise_cons.mp htail
  have hnot : s ∉ pre := not_mem_of_before fun c hc => hcross c hc s (by simp)
  have herase : (pre ++ s :: post).erase s = pre ++ post := by
    rw [erase_append_right _ hnot, erase_cons_head]
  have hstart : s.start - r.size = r.start := by simp only [stop] at hs; omega
  have hstop : r.start + (s.size + r.size) = s.stop := by simp only [stop] at hs ⊢; omega
  rw [herase, hstart]
  have hrest : (pre ++ post).Pairwise Before :=
    pairwise_append.mpr ⟨hpres, hposts, fun b hb c hc => hcross b hb c (by simp [hc])⟩
  have hins := inserted_add (r := ⟨r.start, s.size + r.size⟩) hrest (by
    intro c hc
    rcases mem_append.mp hc with hc | hc
    · exact .inr (hpre c hc)
    · have := hafter c hc
      left
      simp only [Before, stop_mk] at this ⊢
      omega)
  have hsub : ∀ b ∈ pre ++ post, b ∈ pre ++ s :: post := by
    intro b hb
    simp only [mem_append, mem_cons] at hb ⊢
    tauto
  refine ⟨hins.pairwise, ?_, ?_, ?_, ?_, ?_⟩
  · intro x
    rw [hins.multiplicity]
    simp only [multiplicity_append, multiplicity_cons]
    split_ifs <;> simp only [Contains, stop] at * <;> omega
  · rw [hins.total]
    simp only [total_append, total_cons]
    omega
  · intro b hb
    rcases hins.start b hb with ⟨hb, hne⟩ | ⟨c, hc, h⟩
    · by_cases hsr : s.stop = r.start
      · have hrs : r.start = s.start := by
          simp only [stop] at hs hsr
          omega
        exact .inr ⟨s, by simp, hb.trans hrs⟩
      · refine .inl ⟨hb, fun c hc => ?_⟩
        simp only [mem_append, mem_cons] at hc
        rcases hc with hc | rfl | hc
        · exact hne c (by simp [hc])
        · exact hsr
        · exact hne c (by simp [hc])
    · exact .inr ⟨c, hsub c hc, h⟩
  · intro b hb
    rcases hins.stop b hb with h | ⟨c, hc, h⟩
    · exact .inr ⟨s, by simp, h.trans hstop⟩
    · exact .inr ⟨c, hsub c hc, h⟩
  · intro b hb h0
    rcases hins.empty b hb h0 with h | h
    · subst h
      have hz : s.size = 0 ∧ r.size = 0 := by simpa using h0
      refine .inl ?_
      cases r
      simp_all
    · exact .inr (hsub b h)

theorem inserted_merge_both {p s : FreeBlock} (hbs : (pre ++ p :: s :: post).Pairwise Before)
    (hp : p.stop = r.start) (hs : r.stop = s.start) :
    Inserted (pre ++ p :: s :: post) r (pre ++ ⟨p.start, p.size + (r.size + s.size)⟩ :: post) := by
  obtain ⟨hafter, hposts⟩ := pairwise_cons.mp (pairwise_append.mp hbs).2.1
  have hstop : p.start + (p.size + (r.size + s.size)) = s.stop := by
    simp only [stop] at hp hs ⊢
    omega
  refine inserted_replace [p, s] hbs mem_cons_self rfl (fun c hc => ?_) (fun x => ?_) ?_
    (.inr ⟨s, by simp, hstop⟩) fun h0 => ?_
  · exact hstop.trans_lt ((pairwise_cons.mp hposts).1 c hc)
  · simp only [multiplicity_cons]
    split_ifs <;> simp only [Contains, stop] at * <;> omega
  · simp only [total_cons, total_nil]
    omega
  · have hps : Before p s := hafter s mem_cons_self
    have hz : p.size + (r.size + s.size) = 0 := h0
    simp only [Before, stop] at hps hp hs
    omega

theorem before_of_le_of_ne_last {pre : List FreeBlock} {a : ℕ} (hpre : (pre ++ [p]).Pairwise Before)
    (hle : p.stop ≤ a) (hne : p.stop ≠ a) :
    ∀ c ∈ pre ++ [p], c.stop < a := by
  intro c hc
  rcases mem_append.mp hc with hc | hc
  · have hcp : Before c p := (pairwise_append.mp hpre).2.2 c hc p (by simp)
    have := start_le_stop p
    simp only [Before] at hcp
    omega
  · rw [mem_singleton] at hc
    subst hc
    omega

theorem before_of_le_of_ne_head {post : List FreeBlock} {a : ℕ}
    (hpost : (s :: post).Pairwise Before) (hle : a ≤ s.start) (hne : a ≠ s.start) :
    ∀ c ∈ s :: post, a < c.start := by
  intro c hc
  rcases mem_cons.mp hc with rfl | hc
  · omega
  · have hsc : Before s c := (pairwise_cons.mp hpost).1 c hc
    have := start_le_stop s
    simp only [Before] at hsc
    omega

namespace AddressManager

theorem canMergeWithPrev_iff {curr prev : FreeBlock} :
    canMergeWithPrev curr prev = true ↔ prev.stop = curr.start := by
  simp [canMergeWithPrev, FreeBlock.canBeCoalesced, stop]

theorem canMergeWithSucc_iff {curr succ : FreeBlock} :
    canMergeWithSucc curr succ = true ↔ curr.stop = succ.start := by
  simp [canMergeWithSucc, FreeBlock.canBeCoalesced, stop]

theorem insertFree_merge_both {r p s : Region} (hp : p.stop = r.start) (hs : r.stop = s.start) :
    insertFree bs r (some p) (some s) =
      (bs.replace p ⟨p.start, p.size + (r.size + s.size)⟩).erase s := by
  simp [insertFree, coalesce, Option.filter, canMergeWithPrev_iff.mpr hp, canMergeWithSucc_iff.mpr hs]

theorem insertFree_merge_prev {r p : Region} {succ : Option FreeBlock} (hp : p.stop = r.start)
    (hs : ∀ s ∈ succ, r.stop ≠ s.start) :
    insertFree bs r (some p) succ = bs.replace p ⟨p.start, p.size + r.size⟩ := by
  have hn : succ.filter (canMergeWithSucc r) = none := by
    simpa [filter_eq_none_iff, canMergeWithSucc_iff] using hs
  simp [insertFree, coalesce, filter_some, canMergeWithPrev_iff.mpr hp, hn]

theorem insertFree_merge_succ {r s : Region} {prev : Option FreeBlock}
    (hp : ∀ p ∈ prev, p.stop ≠ r.start) (hs : r.stop = s.start) :
    insertFree bs r prev (some s) = add ⟨s.start - r.size, s.size + r.size⟩ (bs.erase s) := by
  have hn : prev.filter (canMergeWithPrev r) = none := by
    simpa [filter_eq_none_iff, canMergeWithPrev_iff] using hp
  simp [insertFree, coalesce, filter_some, canMergeWithSucc_iff.mpr hs, hn]

theorem insertFree_alone {prev succ : Option FreeBlock} (hp : ∀ p ∈ prev, p.stop ≠ r.start)
    (hs : ∀ s ∈ succ, r.stop ≠ s.start) :
    insertFree bs r prev succ = add r bs := by
  have hnp : prev.filter (canMergeWithPrev r) = none := by
    simpa [filter_eq_none_iff, canMergeWithPrev_iff] using hp
  have hns : succ.filter (canMergeWithSucc r) = none := by
    simpa [filter_eq_none_iff, canMergeWithSucc_iff] using hs
  simp [insertFree, coalesce, hnp, hns]

theorem inserted_insertFree (hbs : (pre ++ post).Pairwise Before)
    (hpre : ∀ b ∈ pre, b.stop ≤ r.start) (hpost : ∀ b ∈ post, r.stop ≤ b.start) :
    Inserted (pre ++ post) r (insertFree (pre ++ post) r pre.getLast? post.head?) := by
  obtain ⟨hpres, hposts, hcross⟩ := pairwise_append.mp hbs
  by_cases hp : ∃ p ∈ pre.getLast?, p.stop = r.start
  · obtain ⟨p, hpl, hpr⟩ := hp
    obtain ⟨pre, rfl⟩ := getLast?_eq_some_iff.mp hpl
    have hnot : p ∉ pre :=
      not_mem_of_before fun c hc => (pairwise_append.mp hpres).2.2 c hc p (by simp)
    by_cases hs : ∃ s ∈ post.head?, r.stop = s.start
    · obtain ⟨s, hsh, hsr⟩ := hs
      obtain ⟨post, rfl⟩ := head?_eq_some_iff.mp hsh
      have hps : Before p s := hcross p (by simp) s (by simp)
      have hsn : s ∉ pre := by
        intro hmem
        have h1 : Before s p := (pairwise_append.mp hpres).2.2 s hmem p (by simp)
        have := start_le_stop p
        have := start_le_stop s
        simp only [Before] at h1 hps
        omega
      have hne : (⟨p.start, p.size + (r.size + s.size)⟩ : Region) ≠ s := by
        intro h
        have hst := congrArg Region.start h
        have := start_le_stop p
        simp only [Before] at hps hst
        omega
      rw [hpl, hsh, insertFree_merge_both hpr hsr, append_assoc, singleton_append,
        replace_append_cons hnot, erase_append_right _ hsn,
        erase_cons_tail (by simpa using hne), erase_cons_head]
      exact inserted_merge_both (by simpa using hbs) hpr hsr
    · have hs' : ∀ s ∈ post.head?, r.stop ≠ s.start := fun s hs1 hs2 => hs ⟨s, hs1, hs2⟩
      rw [hpl, insertFree_merge_prev hpr hs', append_assoc, singleton_append,
        replace_append_cons hnot]
      refine inserted_merge_prev (by simpa using hbs) hpr ?_
      cases post with
      | nil => simp
      | cons s post =>
        exact before_of_le_of_ne_head hposts (hpost s (by simp)) (hs' s (by simp))
  · have hp' : ∀ p ∈ pre.getLast?, p.stop ≠ r.start := fun p hp1 hp2 => hp ⟨p, hp1, hp2⟩
    have hbefore : ∀ c ∈ pre, Before c r := by
      rcases eq_nil_or_concat pre with rfl | ⟨init, p, rfl⟩
      · simp
      · rw [concat_eq_append] at *
        exact before_of_le_of_ne_last hpres (hpre p (by simp)) (hp' p (by simp))
    by_cases hs : ∃ s ∈ post.head?, r.stop = s.start
    · obtain ⟨s, hsh, hsr⟩ := hs
      obtain ⟨post, rfl⟩ := head?_eq_some_iff.mp hsh
      rw [hsh, insertFree_merge_succ hp' hsr]
      exact inserted_merge_succ hbs hsr hbefore
    · have hs' : ∀ s ∈ post.head?, r.stop ≠ s.start := fun s hs1 hs2 => hs ⟨s, hs1, hs2⟩
      rw [insertFree_alone hp' hs']
      refine inserted_add hbs fun c hc => ?_
      rcases mem_append.mp hc with hc | hc
      · exact .inr (hbefore c hc)
      · cases post with
        | nil => simp at hc
        | cons s post =>
          exact .inl (before_of_le_of_ne_head hposts (hpost s (by simp)) (hs' s (by simp)) c hc)

end AddressManager

end LMCache
