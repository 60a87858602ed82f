import LMCache.MemoryManagement.BatchedAllocation

namespace LMCache

open Region hiding size total start

namespace AddressManager

variable {bs : List FreeBlock}

theorem mem_replace_self {p : FreeBlock} (hp : p ∈ bs) (q : FreeBlock) : q ∈ bs.replace p q := by
  induction bs with
  | nil => exact absurd hp List.not_mem_nil
  | cons b bs ih =>
    rw [List.replace_cons]
    split
    · exact List.mem_cons_self
    · rename_i hne
      have hpb : p ≠ b := by simpa using hne
      exact List.mem_cons_of_mem _ (ih ((List.mem_cons.mp hp).resolve_left hpb))

theorem touched_replace {p q : FreeBlock} (hp : p ∈ bs) {x : ℕ} (hpq : p.Touches x → q.Touches x) :
    Touched (bs.replace p q) x ↔ Touched bs x ∨ q.Touches x := by
  constructor
  · rintro ⟨b, hb, hx⟩
    rcases mem_of_mem_replace hb with rfl | hb
    · exact .inr hx
    · exact .inl ⟨b, hb, hx⟩
  · rintro (⟨b, hb, hx⟩ | hx)
    · by_cases hbp : b = p
      · exact ⟨q, mem_replace_self hp q, hpq (hbp ▸ hx)⟩
      · exact ⟨b, mem_replace_of_ne hb hbp, hx⟩
    · exact ⟨q, mem_replace_self hp q, hx⟩

theorem touched_erase {s : FreeBlock} (hs : s ∈ bs) (x : ℕ) :
    Touched (bs.erase s) x ∨ s.Touches x ↔ Touched bs x := by
  rw [or_comm, ← touched_cons]
  exact (touched_congr (fun b => (List.perm_cons_erase hs).mem_iff) x).symm

theorem touched_add (t : FreeBlock) (bs : List FreeBlock) (x : ℕ) :
    Touched (SortedList.add t bs) x ↔ t.Touches x ∨ Touched bs x := by
  rw [← touched_cons]
  exact touched_congr (fun b => (SortedList.add_perm t bs).mem_iff) x

theorem touched_insertFree {prev succ : Option FreeBlock} (hprev : ∀ p ∈ prev, p ∈ bs)
    (hsucc : ∀ s ∈ succ, s ∈ bs) {r : Region} (hr : 0 < r.size) (x : ℕ) :
    Touched (insertFree bs r prev succ) x ↔ Touched bs x ∨ r.Touches x := by
  rcases insertFree_cases bs r prev succ with
    ⟨p, hp, s, hs, hpr, hrs, heq⟩ | ⟨p, hp, hpr, heq⟩ | ⟨s, hs, hrs, heq⟩ | heq
  · have hjoined : (⟨p.start, p.size + (r.size + s.size)⟩ : Region).Touches x ↔
        p.Touches x ∨ r.Touches x ∨ s.Touches x := by
      simp only [Touches, stop] at *
      omega
    have hsp : s ≠ p := by
      rintro rfl
      simp only [stop] at *
      omega
    have hne : (⟨p.start, p.size + (r.size + s.size)⟩ : FreeBlock) ≠ s := by
      intro h
      have hstart := congrArg Region.start h
      simp only [stop] at *
      omega
    have herase := touched_erase (mem_replace_of_ne (q := ⟨p.start, p.size + (r.size + s.size)⟩)
      (hsucc s hs) hsp) x
    have hreplace := touched_replace (hprev p hp) (x := x)
      (fun h => hjoined.mpr (.inl h))
    have hkept : s.Touches x → Touched ((bs.replace p
        ⟨p.start, p.size + (r.size + s.size)⟩).erase s) x := fun h =>
      ⟨_, (List.mem_erase_of_ne hne).mpr (mem_replace_self (hprev p hp) _),
        hjoined.mpr (.inr (.inr h))⟩
    have hold : p.Touches x → Touched bs x := fun h => ⟨p, hprev p hp, h⟩
    have hold' : s.Touches x → Touched bs x := fun h => ⟨s, hsucc s hs, h⟩
    rw [heq]
    constructor
    · intro h
      rcases hreplace.mp (herase.mp (.inl h)) with hbs | hnew
      · exact .inl hbs
      · rcases hjoined.mp hnew with hx | hx | hx
        · exact .inl (hold hx)
        · exact .inr hx
        · exact .inl (hold' hx)
    · intro h
      have hwhole : Touched (bs.replace p ⟨p.start, p.size + (r.size + s.size)⟩) x :=
        hreplace.mpr (h.imp_right fun hx => hjoined.mpr (.inr (.inl hx)))
      exact (herase.mpr hwhole).elim id hkept
  · have hjoined : (⟨p.start, p.size + r.size⟩ : Region).Touches x ↔
        p.Touches x ∨ r.Touches x := by
      simp only [Touches, stop] at *
      omega
    have hold : p.Touches x → Touched bs x := fun h => ⟨p, hprev p hp, h⟩
    rw [heq, touched_replace (hprev p hp) (fun h => hjoined.mpr (.inl h)), hjoined, ← or_assoc,
      or_iff_left_of_imp hold]
  · have hjoined : (⟨s.start - r.size, s.size + r.size⟩ : Region).Touches x ↔
        s.Touches x ∨ r.Touches x := by
      simp only [Touches, stop] at *
      omega
    rw [heq, touched_add, hjoined, ← touched_erase (hsucc s hs) x, or_comm, ← or_assoc]
  · rw [heq, touched_add, or_comm]

end AddressManager

namespace AddressSpace

open AddressManager hiding size align init allocate batchedAllocate free sbrk

variable {k : ℕ} {m : AddressManager} {live live' : List Region}

theorem Tiled.perm (h : Tiled k ⟨m, live⟩) (hperm : live.Perm live') : Tiled k ⟨m, live'⟩ where
  align := h.align
  sorted := h.sorted
  cover x := by rw [← multiplicity_perm hperm]; exact h.cover x
  total := by rw [← total_perm hperm]; exact h.total
  allocated := by rw [← total_perm hperm]; exact h.allocated
  startDvd := h.startDvd
  stopLe := h.stopLe
  emptyStart := h.emptyStart
  liveDvd r hr := h.liveDvd r (hperm.mem_iff.mpr hr)

theorem contained_iff {live : List Region} (h : Tiled k ⟨m, live⟩) (x : ℕ) :
    Contained m.explicitList x ↔ x < m.size ∧ multiplicity live x = 0 := by
  have hcover : multiplicity m.explicitList x + multiplicity live x =
    if x < m.size then 1 else 0 := h.cover x
  rw [Contained, ← contains_of_multiplicity_pos]
  split_ifs at hcover <;> omega

theorem eq_of_tiled {m m' : AddressManager} (h : Tiled k ⟨m, live⟩) (h' : Tiled k ⟨m', live'⟩)
    (hlive : live.Perm live') (hsize : m.size = m'.size)
    (htouched : ∀ x, Touched m.explicitList x ↔ Touched m'.explicitList x) : m = m' := by
  have hlist : m.explicitList = m'.explicitList := by
    apply eq_of_touched h.sorted h'.sorted htouched
    intro x
    rw [contained_iff h, contained_iff h', hsize, multiplicity_perm hlive]
  have halign : m.align = m'.align := h.align.trans h'.align.symm
  have htotal : m.totalAllocatedSize = m'.totalAllocatedSize := by
    rw [show m.totalAllocatedSize = _ from h.allocated,
      show m'.totalAllocatedSize = _ from h'.allocated]
    exact_mod_cast total_perm hlive
  cases m
  cases m'
  simp_all

def address (g : List Region) : ℕ := (g.head?.map Region.start).getD 0

def freeAll (m : AddressManager) (gs : List (List Region)) : AddressManager :=
  gs.foldl (fun m g => m.free (address g) (Region.total g)) m

theorem touched_free {s : AddressSpace} (h : Tiled k s) {regions : List Region}
    (hne : regions ≠ []) (hsub : regions.Subperm s.live) {a : ℕ} (hchain : Chained a regions)
    (x : ℕ) :
    Touched (s.manager.free a (Region.total regions)).explicitList x ↔
      Touched s.manager.explicitList x ∨ Touched regions x := by
  rw [← touches_chained hchain hne]
  apply touched_insertFree
  · intro p hp
    exact mem_of_prev hp
  · intro c hc
    exact List.mem_of_getElem? hc
  · exact total_pos_of_subperm h hne hsub

theorem freeAll_spec {gs : List (List Region)} {rest : List Region}
    (h : Tiled k ⟨m, gs.flatten ++ rest⟩) (hgs : ∀ g ∈ gs, g ≠ [] ∧ Chained (address g) g) :
    Tiled k ⟨freeAll m gs, rest⟩ ∧ (freeAll m gs).size = m.size ∧
      ∀ x, Touched (freeAll m gs).explicitList x ↔ Touched m.explicitList x ∨ Touched gs.flatten x := by
  induction gs generalizing m with
  | nil =>
    refine ⟨h, rfl, fun x => ?_⟩
    rw [freeAll, List.foldl_nil, List.flatten_nil, or_iff_left (by simp [Touched])]
  | cons g gs ih =>
    obtain ⟨hne, hchain⟩ := hgs g List.mem_cons_self
    rw [List.flatten_cons, List.append_assoc] at h
    have hsub : g.Subperm (g ++ (gs.flatten ++ rest)) := (List.sublist_append_left _ _).subperm
    have hfreed := h.free hne hsub hchain
    have hleft : ((g ++ (gs.flatten ++ rest)).diff g).Perm (gs.flatten ++ rest) := by
      have hdiff : (g ++ (g ++ (gs.flatten ++ rest)).diff g).Perm (g ++ (gs.flatten ++ rest)) :=
        List.subperm_append_diff_self_of_count_le fun a _ => hsub.count_le a
      exact (List.perm_append_left_iff g).mp hdiff
    obtain ⟨htiled, hsize, htouched⟩ := ih (hfreed.perm hleft)
      fun g' hg' => hgs g' (List.mem_cons_of_mem _ hg')
    refine ⟨htiled, hsize, fun x => ?_⟩
    have hfirst := touched_free h hne hsub hchain x
    rw [freeAll, List.foldl_cons, ← freeAll, List.flatten_cons, touched_append, ← or_assoc,
      ← hfirst]
    exact htouched x

end AddressSpace

end LMCache
