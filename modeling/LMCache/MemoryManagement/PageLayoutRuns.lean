import LMCache.Foundations.Execution
import LMCache.MemoryManagement.PageLayout

namespace LMCache.PageLayout

open Offsets PagedTensorMemoryAllocator List Execution

variable {c : PagedConfig}

namespace PagedTensorMemoryAllocator

theorem slice_zero (r : Region) (n : ℕ) : slice r 0 n = ⟨r.start, min n r.size⟩ := by
  rw [slice, Nat.zero_min, Nat.sub_zero, Nat.add_zero]

variable (groups : TensorGroups)

theorem prepare_prepare (obj : TensorMemoryObj) :
    prepare c groups (prepare c groups obj) = prepare c groups obj := by
  simp only [prepare, slice_zero]
  split_ifs with h
  · rw [min_eq_right (min_le_left _ _)]
  · rfl

theorem agrees_prepare (groups full : TensorGroups) (obj : TensorMemoryObj) :
    groups.Agrees full (prepare c groups obj).rawData ↔ groups.Agrees full obj.rawData := by
  have hstart : (prepare c groups obj).rawData.start = obj.rawData.start := by
    simp only [prepare, slice_zero]
    split_ifs <;> rfl
  have hsize : groups.sizeBytes ≤ (prepare c groups obj).rawData.size ↔
      groups.sizeBytes ≤ obj.rawData.size := by
    simp only [prepare, slice_zero]
    split_ifs
    · rw [le_min_iff, and_iff_right le_rfl]
    · exact Iff.rfl
  constructor
  · rintro ⟨hleading, htotal, hheld, hplaced⟩
    rw [hstart] at hplaced
    exact ⟨hleading, htotal, hsize.mp hheld, hplaced⟩
  · rintro ⟨hleading, htotal, hheld, hplaced⟩
    rw [← hstart] at hplaced
    exact ⟨hleading, htotal, hsize.mpr hheld, hplaced⟩

variable {a : PagedTensorMemoryAllocator c} {rest : List (Fin c.numPages)} {page : Fin c.numPages}

theorem popBlock_of_cons (h : a.freeBlocks = page :: rest) (groups : TensorGroups) :
    a.popBlock groups = some (page, { a with freeBlocks := rest }.modify page (prepare c groups)) := by
  rw [popBlock, h]

theorem objects_modify (a : PagedTensorMemoryAllocator c) (page page' : Fin c.numPages)
    (f : TensorMemoryObj → TensorMemoryObj) :
    (a.modify page f).objects page' = if page' = page then f (a.objects page') else a.objects page' := by
  change Function.update a.objects page _ page' = _
  rw [Function.update_apply]
  split_ifs with h
  · rw [h]
  · rfl

theorem Sound.modify (h : a.Sound) (page : Fin c.numPages) {f : TensorMemoryObj → TensorMemoryObj}
    (hf : ∀ obj, Made c page obj → Made c page (f obj)) :
    (a.modify page f).Sound := by
  intro page'
  rw [objects_modify]
  split_ifs with heq
  · rw [heq]
    exact hf _ (h page)
  · exact h page'

theorem Sound.pushBlock (h : a.Sound) (page : Fin c.numPages) : (a.pushBlock page).Sound := by
  have hfree : ({ a with freeBlocks := a.freeBlocks ++ [page] } :
      PagedTensorMemoryAllocator c).Sound := h
  exact hfree.modify page fun _ hobj => hobj.restore

theorem Sound.batchedFree (h : a.Sound) (pages : List (Fin c.numPages)) (updateStats : Bool) :
    (a.batchedFree pages updateStats).Sound := by
  have hloop : (pages.foldl (fun a page => if !(a.objects page).valid then a else a.pushBlock page)
      a).Sound := by
    induction pages generalizing a with
    | nil => exact h
    | cons page pages ih =>
      rw [foldl_cons]
      apply ih
      split_ifs
      · exact h
      · exact h.pushBlock page
  rw [PagedTensorMemoryAllocator.batchedFree]
  split_ifs
  · exact hloop
  · exact hloop

theorem takeBlocks_of_le (n : ℕ) (h : n ≤ a.freeBlocks.length) (taken : List (Fin c.numPages)) :
    (takeBlocks groups n a taken).1 = some (taken ++ a.freeBlocks.take n) ∧
      ∀ page, (takeBlocks groups n a taken).2.objects page =
        if page ∈ a.freeBlocks.take n then prepare c groups (a.objects page) else a.objects page := by
  induction n generalizing a taken with
  | zero => simp [takeBlocks]
  | succ n ih =>
    cases hfree : a.freeBlocks with
    | nil => simp [hfree] at h
    | cons head rest =>
      simp only [takeBlocks, popBlock_of_cons hfree]
      rw [hfree, length_cons, Nat.add_le_add_iff_right] at h
      obtain ⟨hpages, hobjects⟩ :=
        ih (a := { a with freeBlocks := rest }.modify head (prepare c groups)) h (taken ++ [head])
      refine ⟨?_, fun page => ?_⟩
      · rw [hpages, append_assoc]
        rfl
      · rw [hobjects, objects_modify, take_succ_cons]
        change (if page ∈ rest.take n then _ else _) = _
        by_cases heq : page = head
        · simp only [heq, if_true, prepare_prepare, ite_self, mem_cons_self]
        · simp only [heq, if_false, mem_cons, false_or]

theorem takeBlocks_of_lt (n : ℕ) (h : a.freeBlocks.length < n) (taken : List (Fin c.numPages)) :
    (takeBlocks groups n a taken).1 = none := by
  induction n generalizing a taken with
  | zero => exact absurd h (Nat.not_lt_zero _)
  | succ n ih =>
    cases hfree : a.freeBlocks with
    | nil => simp [takeBlocks, popBlock, hfree]
    | cons head rest =>
      simp only [takeBlocks, popBlock_of_cons hfree]
      rw [hfree, length_cons, Nat.add_lt_add_iff_right] at h
      exact ih (a := { a with freeBlocks := rest }.modify head (prepare c groups)) h _

theorem Sound.takeBlocks (h : a.Sound) (groups : TensorGroups) (n : ℕ)
    (taken : List (Fin c.numPages)) : (takeBlocks groups n a taken).2.Sound := by
  induction n generalizing a taken with
  | zero => exact h
  | succ n ih =>
    cases hfree : a.freeBlocks with
    | nil =>
      simp only [PagedTensorMemoryAllocator.takeBlocks, popBlock, hfree]
      exact h.batchedFree taken false
    | cons head rest =>
      simp only [PagedTensorMemoryAllocator.takeBlocks, popBlock_of_cons hfree]
      have hrest : ({ a with freeBlocks := rest } : PagedTensorMemoryAllocator c).Sound := h
      exact ih (hrest.modify head fun _ hobj => hobj.prepare groups) _

theorem sound_create (c : PagedConfig) : (create c).Sound := fun page => made_init c page

theorem Sound.exec (h : a.Sound) (op : PageOp c) : (a.exec op).Sound := by
  cases op with
  | allocate groups =>
    change (a.allocate groups).2.Sound
    rw [allocate]
    cases hfree : a.freeBlocks with
    | nil =>
      simp only [popBlock, hfree]
      exact h
    | cons head rest =>
      simp only [popBlock_of_cons hfree]
      have hrest : ({ a with freeBlocks := rest } : PagedTensorMemoryAllocator c).Sound := h
      exact hrest.modify head fun _ hobj => hobj.prepare groups
  | batchedAllocate groups batchSize =>
    change (a.batchedAllocate groups batchSize).2.Sound
    have hloop := h.takeBlocks groups batchSize.toNat []
    rw [batchedAllocate]
    generalize PagedTensorMemoryAllocator.takeBlocks groups batchSize.toNat a [] = loop at hloop
    obtain ⟨_ | pages, a'⟩ := loop
    · exact hloop
    · exact hloop
  | free page =>
    change (a.free page).Sound
    rw [free]
    split_ifs
    · exact h
    · exact h.pushBlock page
  | batchedFree pages => exact h.batchedFree pages true

theorem Sound.reports_iff (h : a.Sound) (page : Fin c.numPages) (groups : TensorGroups) :
    (prepare c groups (a.objects page)).Reports groups (c.pagedBuffer page).start ↔
      groups.Agrees c.groups (a.objects page).rawData := by
  rw [← agrees_prepare]
  exact ((h page).prepare groups).reports_iff

theorem Sound.reportsAfter_iff (h : a.Sound) (op : PageOp c) :
    a.ReportsAfter op ↔ a.RequestAgrees op := by
  cases op with
  | allocate groups =>
    cases hfree : a.freeBlocks with
    | nil => simp [ReportsAfter, RequestAgrees, allocate, popBlock, hfree]
    | cons head rest =>
      simp only [ReportsAfter, RequestAgrees, allocate, popBlock_of_cons hfree, hfree,
        head?_cons, Option.mem_def, Option.some.injEq, forall_eq', objects_modify, if_true]
      exact h.reports_iff head groups
  | batchedAllocate groups batchSize =>
    by_cases hle : batchSize.toNat ≤ a.freeBlocks.length
    · obtain ⟨hpages, hobjects⟩ := takeBlocks_of_le groups batchSize.toNat hle []
      generalize hloop : PagedTensorMemoryAllocator.takeBlocks groups batchSize.toNat a [] = loop
        at hpages hobjects
      obtain ⟨answer, a'⟩ := loop
      obtain rfl : answer = some (a.freeBlocks.take batchSize.toNat) := hpages
      simp only [ReportsAfter, RequestAgrees, batchedAllocate, hloop, Option.mem_def,
        Option.some.injEq, forall_eq', hle, true_imp_iff]
      refine forall_congr' fun page => forall_congr' fun hpage => ?_
      rw [hobjects, if_pos hpage]
      exact h.reports_iff page groups
    · have hnone := takeBlocks_of_lt groups batchSize.toNat (Nat.lt_of_not_le hle) []
      generalize hloop : PagedTensorMemoryAllocator.takeBlocks groups batchSize.toNat a [] = loop
        at hnone
      obtain ⟨answer, a'⟩ := loop
      obtain rfl : answer = none := hnone
      simp [ReportsAfter, RequestAgrees, batchedAllocate, hloop, hle]
  | free page => exact Iff.rfl
  | batchedFree pages => exact Iff.rfl

theorem whole_create (c : PagedConfig) : (create c).Whole :=
  ⟨nodup_finRange _, fun _ _ => rfl⟩

theorem Whole.pop (h : a.Whole) {head : Fin c.numPages} (hfree : a.freeBlocks = head :: rest)
    (groups : TensorGroups) :
    ({ a with freeBlocks := rest }.modify head (prepare c groups)).Whole := by
  have hnodup := h.nodup
  rw [hfree, nodup_cons] at hnodup
  refine ⟨hnodup.2, fun page hpage => ?_⟩
  rw [objects_modify] at hpage ⊢
  split_ifs at hpage ⊢ with heq
  · rw [heq] at hpage ⊢
    have hhead : (a.objects head).rawData = c.pagedBuffer head :=
      h.page head (.inl (by rw [hfree]; exact mem_cons_self))
    have hshapes : groups.shapes = c.groups.shapes := hpage.resolve_left hnodup.1
    simp only [prepare, hshapes, ne_eq, not_true_eq_false, if_false]
    exact hhead
  · apply h.page page
    rw [hfree]
    exact hpage.imp_left (mem_cons_of_mem head)

theorem Whole.pushBlock (h : a.Whole) (hsound : a.Sound) (hpage : page ∉ a.freeBlocks) :
    (a.pushBlock page).Whole := by
  refine ⟨?_, fun page' hpage' => ?_⟩
  · exact (nodup_append_comm.mp (nodup_cons.mpr ⟨hpage, h.nodup⟩))
  · rw [PagedTensorMemoryAllocator.pushBlock, objects_modify] at hpage' ⊢
    split_ifs at hpage' ⊢ with heq
    · rw [heq]
      simp only [restore, (hsound page).address]
      split_ifs with hshapes
      · rfl
      · exact h.page page (.inr (not_not.mp hshapes))
    · refine h.page page' (hpage'.imp_left fun hmem => ?_)
      exact (mem_append.mp hmem).resolve_right fun hlast => heq (mem_singleton.mp hlast)

theorem Whole.batchedFree (h : a.Whole) (hsound : a.Sound) {pages : List (Fin c.numPages)}
    (hpages : (a.freeBlocks ++ pages).Nodup) (updateStats : Bool) :
    (a.batchedFree pages updateStats).Whole := by
  have hloop : (pages.foldl (fun a page => if !(a.objects page).valid then a else a.pushBlock page)
      a).Whole := by
    induction pages generalizing a with
    | nil => exact h
    | cons page pages ih =>
      have hout : page ∉ a.freeBlocks := by
        intro hmem
        exact (nodup_append.mp hpages).2.2 page hmem page mem_cons_self rfl
      rw [foldl_cons, (hsound page).valid]
      refine ih (h.pushBlock hsound hout) (hsound.pushBlock page) ?_
      change (a.freeBlocks ++ [page] ++ pages).Nodup
      rwa [append_assoc]
  rw [PagedTensorMemoryAllocator.batchedFree]
  split_ifs
  · exact ⟨hloop.nodup, hloop.page⟩
  · exact hloop

theorem Whole.takeBlocks (h : a.Whole) (hsound : a.Sound) (groups : TensorGroups) (n : ℕ)
    {taken : List (Fin c.numPages)} (htaken : (a.freeBlocks ++ taken).Nodup) :
    (takeBlocks groups n a taken).2.Whole := by
  induction n generalizing a taken with
  | zero => exact h
  | succ n ih =>
    cases hfree : a.freeBlocks with
    | nil =>
      simp only [PagedTensorMemoryAllocator.takeBlocks, popBlock, hfree]
      exact h.batchedFree hsound htaken false
    | cons head rest =>
      simp only [PagedTensorMemoryAllocator.takeBlocks, popBlock_of_cons hfree]
      have hrest : ({ a with freeBlocks := rest } : PagedTensorMemoryAllocator c).Sound := hsound
      refine ih (h.pop hfree groups) (hrest.modify head fun _ hobj => hobj.prepare groups) ?_
      have hperm : (rest ++ (taken ++ [head])).Perm (head :: rest ++ taken) := by
        rw [← append_assoc]
        exact perm_append_singleton head (rest ++ taken)
      rw [hfree] at htaken
      exact hperm.nodup_iff.mpr htaken

theorem Whole.exec (h : a.Whole) (hsound : a.Sound) {op : PageOp c} (hop : a.FreedOnce op) :
    (a.exec op).Whole := by
  cases op with
  | allocate groups =>
    change (a.allocate groups).2.Whole
    rw [allocate]
    cases hfree : a.freeBlocks with
    | nil =>
      simp only [popBlock, hfree]
      exact h
    | cons head rest =>
      simp only [popBlock_of_cons hfree]
      have hpop := h.pop hfree groups
      exact ⟨hpop.nodup, hpop.page⟩
  | batchedAllocate groups batchSize =>
    change (a.batchedAllocate groups batchSize).2.Whole
    have hnone : (a.freeBlocks ++ []).Nodup := by
      rw [append_nil]
      exact h.nodup
    have hloop := h.takeBlocks hsound groups batchSize.toNat hnone
    rw [batchedAllocate]
    generalize PagedTensorMemoryAllocator.takeBlocks groups batchSize.toNat a [] = loop at hloop
    obtain ⟨_ | pages, a'⟩ := loop
    · exact hloop
    · exact ⟨hloop.nodup, hloop.page⟩
  | free page =>
    change (a.free page).Whole
    rw [free, (hsound page).valid]
    have hpush := h.pushBlock hsound hop
    exact ⟨hpush.nodup, hpush.page⟩
  | batchedFree pages => exact h.batchedFree hsound hop true

theorem whole_final (c : PagedConfig) {ops : List (PageOp c)}
    (h : Execution.Along exec FreedOnce (create c) ops) :
    (final exec (create c) ops).Whole := by
  have hinv := invariant_final (I := fun a : PagedTensorMemoryAllocator c => a.Whole ∧ a.Sound)
    (fun a op hi hop => ⟨hi.1.exec hi.2 hop, hi.2.exec op⟩) ⟨whole_create c, sound_create c⟩ h
  exact hinv.1

theorem along_reportsAfter_iff (c : PagedConfig) (ops : List (PageOp c)) :
    Execution.Along exec ReportsAfter (create c) ops ↔
      Execution.Along exec RequestAgrees (create c) ops := by
  have hall : Execution.Along exec (fun _ _ => True) (create c) ops :=
    along_of_forall (fun _ _ => trivial) _ _
  exact along_iff_along (fun _ op h _ _ => h.exec op)
    (fun _ op h _ => h.reportsAfter_iff op) (sound_create c) hall

def byteGroups (tokens : ℕ) : TensorGroups := ⟨[[tokens]], [⟨1, by decide⟩], rfl, by simp⟩

def eightBytePages : PagedConfig := ⟨byteGroups 8, 16, 0, by decide, by decide⟩

theorem whole_final_halfChunk : (final exec (create eightBytePages)
    [.allocate (byteGroups 4), .free ⟨0, by decide⟩]).Whole :=
  whole_final _ ⟨trivial, (by unfold FreedOnce; decide), trivial⟩

theorem not_reportsAfter_halfChunk :
    ¬ ∀ (c : PagedConfig) (ops : List (PageOp c)), (∀ op ∈ ops, Fits op) →
      Execution.Along exec ReportsAfter (create c) ops := by
  intro h
  have hfits : ∀ op ∈ [PageOp.allocate (c := eightBytePages) (byteGroups 4)], Fits op := by
    intro op hop
    rw [mem_singleton.mp hop]
    exact (by decide : (byteGroups 4).sizeBytes ≤ eightBytePages.alignBytes)
  have hreports := (h eightBytePages _ hfits).1 ⟨0, by decide⟩ rfl
  exact absurd hreports.size (by decide)

end PagedTensorMemoryAllocator

end LMCache.PageLayout
