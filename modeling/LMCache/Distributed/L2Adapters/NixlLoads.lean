import Mathlib.Algebra.Order.Ring.Nat
import LMCache.Distributed.L2Adapters.NixlStore

namespace LMCache

open List Nat

namespace NixlStore

variable {K : Type} [DecidableEq K] (s : NixlStore K) (keys : List K)

def storedAt (i : ℕ) : Option NixlStoreObj :=
  keys[i]?.bind s.memoryObjects.get?

variable (objects : List MemoryMeta)

def bufferPages (i : ℕ) : Option (List ℕ) :=
  objects[i]?.bind (fun obj => (s.getMemoryIndices obj.address obj.phySize).toOption)

def Filled (answers : XferAnswers) (i : ℕ) : Prop :=
  (s.loadPlan keys objects).2 = .ok () ∧
    (s.loadPlan keys objects).1.memIndicesFlat ≠ [] ∧ answers.Completes ∧
    ∃ storageObj ∈ s.storedAt keys i, ∃ pages ∈ s.bufferPages objects i,
      pages.length = storageObj.pageIndices.length ∧
        pages.zip storageObj.pageIndices ⊆
          (s.loadPlan keys objects).1.memIndicesFlat.zip
            (s.loadPlan keys objects).1.storageIndicesFlat

def NothingPlanned : Prop :=
  ∀ i, (s.storedAt keys i).isSome →
    ∃ j ≤ i, (s.storedAt keys j).isSome ∧ s.bufferPages objects j = none

def Fits : Prop :=
  ∀ i, ∀ storageObj ∈ s.storedAt keys i,
    ∃ pages ∈ s.bufferPages objects i, pages.length = storageObj.pageIndices.length

structure LoadBlock where
  index : ℕ
  memIndices : List ℕ
  storageIndices : List ℕ

def LoadPlan.extend (plan : LoadPlan) (blocks : List LoadBlock) : LoadPlan where
  bitmap := (blocks.map LoadBlock.index).foldl Bitmap.set plan.bitmap
  memIndicesFlat := plan.memIndicesFlat ++ blocks.flatMap LoadBlock.memIndices
  storageIndicesFlat := plan.storageIndicesFlat ++ blocks.flatMap LoadBlock.storageIndices

structure Built (s : NixlStore K) (objects : List MemoryMeta) (i : ℕ) (keys : List K)
    (plan : LoadPlan) (built : LoadPlan × Except String Unit) (blocks : List LoadBlock)
    (visited : ℕ) : Prop where
  planned : built.1 = LoadPlan.extend plan blocks
  placed : ∀ b ∈ blocks, ∃ n < visited, b.index = i + n ∧
    s.bufferPages objects b.index = some b.memIndices ∧
    ∃ storageObj ∈ s.storedAt keys n, b.storageIndices = storageObj.pageIndices
  covered : ∀ n < visited, (s.storedAt keys n).isSome → ∃ b ∈ blocks, b.index = i + n
  ended : built.2 = .ok () ∧ keys.length ≤ visited ∨
    built.2 ≠ .ok () ∧ (s.storedAt keys visited).isSome ∧ s.bufferPages objects (i + visited) = none

variable {s : NixlStore K} {objects : List MemoryMeta} {i : ℕ} {key : K} {keys : List K}
  {plan : LoadPlan}

theorem LoadPlan.extend_nil (plan : LoadPlan) : LoadPlan.extend plan [] = plan := by
  simp [LoadPlan.extend]

theorem LoadPlan.extend_cons (plan : LoadPlan) (b : LoadBlock) (blocks : List LoadBlock) :
    LoadPlan.extend plan (b :: blocks) = LoadPlan.extend (LoadPlan.extend plan [b]) blocks := by
  simp [LoadPlan.extend, append_assoc]

theorem storedAt_zero : s.storedAt (key :: keys) 0 = s.memoryObjects.get? key := rfl

theorem storedAt_of_le {n : ℕ} (h : keys.length ≤ n) : s.storedAt keys n = none := by
  rw [storedAt, getElem?_eq_none h, Option.bind_none]

variable {built : LoadPlan × Except String Unit}

theorem Built.skip {blocks : List LoadBlock} {visited : ℕ} (hkey : s.memoryObjects.get? key = none)
    (h : Built s objects (i + 1) keys plan built blocks visited) :
    Built s objects i (key :: keys) plan built blocks (visited + 1) := by
  refine ⟨h.planned, fun b hb => ?_, fun n hn hstored => ?_, ?_⟩
  · obtain ⟨n, hn, hindex, hrest⟩ := h.placed b hb
    exact ⟨n + 1, by omega, by omega, hrest⟩
  · cases n with
    | zero => simp [storedAt_zero, hkey] at hstored
    | succ n =>
      obtain ⟨b, hb, hindex⟩ := h.covered n (by omega) hstored
      exact ⟨b, hb, by omega⟩
  · rcases h.ended with ⟨hok, hlen⟩ | ⟨hraised, hstored, hrefused⟩
    · exact .inl ⟨hok, succ_le_succ hlen⟩
    · exact .inr ⟨hraised, hstored, by rwa [show i + (visited + 1) = i + 1 + visited by omega]⟩

variable {storageObj : NixlStoreObj}

theorem Built.place {blocks : List LoadBlock} {visited : ℕ} {memIndices : List ℕ}
    (hkey : s.memoryObjects.get? key = some storageObj)
    (hpages : s.bufferPages objects i = some memIndices) (h : Built s objects (i + 1) keys
      (LoadPlan.extend plan [⟨i, memIndices, storageObj.pageIndices⟩]) built blocks visited) :
    Built s objects i (key :: keys) plan built
      (⟨i, memIndices, storageObj.pageIndices⟩ :: blocks) (visited + 1) := by
  refine ⟨h.planned.trans (LoadPlan.extend_cons plan _ _).symm, fun b hb => ?_,
    fun n hn hstored => ?_, ?_⟩
  · rcases mem_cons.mp hb with rfl | hb
    · exact ⟨0, by omega, rfl, hpages, storageObj, hkey, rfl⟩
    · obtain ⟨n, hn, hindex, hrest⟩ := h.placed b hb
      exact ⟨n + 1, by omega, by omega, hrest⟩
  · cases n with
    | zero => exact ⟨_, mem_cons_self, rfl⟩
    | succ n =>
      obtain ⟨b, hb, hindex⟩ := h.covered n (by omega) hstored
      exact ⟨b, mem_cons_of_mem _ hb, by omega⟩
  · rcases h.ended with ⟨hok, hlen⟩ | ⟨hraised, hstored, hrefused⟩
    · exact .inl ⟨hok, succ_le_succ hlen⟩
    · exact .inr ⟨hraised, hstored, by rwa [show i + (visited + 1) = i + 1 + visited by omega]⟩

theorem Built.refused {e : String} (hkey : s.memoryObjects.get? key = some storageObj)
    (hpages : s.bufferPages objects i = none) :
    Built s objects i (key :: keys) plan (plan, .error e) [] 0 := by
  refine ⟨(LoadPlan.extend_nil plan).symm, fun b hb => by simp at hb, fun n hn => by omega, ?_⟩
  exact .inr ⟨by simp, by simp [storedAt_zero, hkey], hpages⟩

theorem built_buildLoad (s : NixlStore K) (objects : List MemoryMeta) (i : ℕ) (keys : List K)
    (plan : LoadPlan) : ∃ blocks visited,
      Built s objects i keys plan (s.buildLoad objects i keys plan) blocks visited := by
  induction keys generalizing i plan with
  | nil =>
    exact ⟨[], 0, (LoadPlan.extend_nil plan).symm, fun b hb => by simp at hb, fun n hn => by omega,
      .inl ⟨rfl, le_rfl⟩⟩
  | cons key keys ih =>
    rw [buildLoad]
    cases hkey : s.memoryObjects.get? key with
    | none =>
      obtain ⟨blocks, visited, h⟩ := ih (i + 1) plan
      exact ⟨blocks, visited + 1, h.skip hkey⟩
    | some storageObj =>
      cases hobj : objects[i]? with
      | none => exact ⟨[], 0, .refused hkey (by simp [bufferPages, hobj])⟩
      | some obj =>
        cases hmem : s.getMemoryIndices obj.address obj.phySize with
        | error e =>
          have hpages : s.bufferPages objects i = none := by
            simp [bufferPages, hobj, hmem, Except.toOption]
          simp only [hmem]
          exact ⟨[], 0, .refused hkey hpages⟩
        | ok memIndices =>
          have hpages : s.bufferPages objects i = some memIndices := by
            simp [bufferPages, hobj, hmem, Except.toOption]
          obtain ⟨blocks, visited, h⟩ :=
            ih (i + 1) (LoadPlan.extend plan [⟨i, memIndices, storageObj.pageIndices⟩])
          simp only [hmem]
          refine ⟨_ :: blocks, visited + 1, Built.place hkey hpages ?_⟩
          simpa [LoadPlan.extend] using h

theorem zip_flatMap_of_length {f g : LoadBlock → List ℕ} {blocks : List LoadBlock}
    (h : ∀ b ∈ blocks, (f b).length = (g b).length) :
    (blocks.flatMap f).zip (blocks.flatMap g) = blocks.flatMap (fun b => (f b).zip (g b)) := by
  induction blocks with
  | nil => rfl
  | cons b blocks ih =>
    rw [flatMap_cons, flatMap_cons, flatMap_cons,
      zip_append (h b mem_cons_self), ih fun b' hb' => h b' (mem_cons_of_mem _ hb')]

section Load

variable {answers : XferAnswers} {blocks : List LoadBlock} {visited : ℕ} {b : LoadBlock}

theorem Built.placed_stored
    (h : Built s objects 0 keys plan (s.loadPlan keys objects) blocks visited) (hb : b ∈ blocks) :
    b.index < visited ∧ s.bufferPages objects b.index = some b.memIndices ∧
      ∃ storageObj ∈ s.storedAt keys b.index, b.storageIndices = storageObj.pageIndices := by
  obtain ⟨n, hn, hindex, hpages, storageObj, hstored, hstorage⟩ := h.placed b hb
  rw [zero_add] at hindex
  subst hindex
  exact ⟨hn, hpages, storageObj, hstored, hstorage⟩

theorem Built.block_of_lt (h : Built s objects 0 keys plan (s.loadPlan keys objects) blocks visited)
    (hi : i < visited) (hstored : (s.storedAt keys i).isSome) : ∃ b ∈ blocks, b.index = i := by
  obtain ⟨b, hb, hindex⟩ := h.covered i hi hstored
  exact ⟨b, hb, hindex.trans (zero_add i)⟩

theorem Built.test_bitmap
    (h : Built s objects 0 keys ⟨.ofSize keys.length, [], []⟩ (s.loadPlan keys objects) blocks
      visited) : (s.loadPlan keys objects).1.bitmap.test i = true ↔ ∃ b ∈ blocks, b.index = i := by
  rw [h.planned, LoadPlan.extend, Bitmap.test_foldl_set, Bitmap.test_ofSize, Bitmap.size_ofSize,
    mem_map]
  constructor
  · rintro (hno | ⟨hb, _⟩)
    · exact absurd hno Bool.false_ne_true
    · exact hb
  · rintro ⟨b, hb, rfl⟩
    obtain ⟨_, _, storageObj, hstored, _⟩ := h.placed_stored hb
    refine .inr ⟨⟨b, hb, rfl⟩, Nat.lt_of_not_le fun hle => ?_⟩
    rw [storedAt_of_le hle] at hstored
    simp at hstored

theorem Built.no_block (h : Built s objects 0 keys plan (s.loadPlan keys objects) blocks visited)
    (hnothing : NothingPlanned s keys objects) (hb : b ∈ blocks) : False := by
  obtain ⟨hlt, _, storageObj, hstored, _⟩ := h.placed_stored hb
  obtain ⟨j, hj, hjstored, hrefused⟩ := hnothing b.index (Option.isSome_of_mem hstored)
  obtain ⟨b', hb', rfl⟩ := h.block_of_lt (lt_of_le_of_lt hj hlt) hjstored
  have hpages := (h.placed_stored hb').2.1
  rw [hrefused] at hpages
  simp at hpages

theorem Built.nothingPlanned
    (h : Built s objects 0 keys plan (s.loadPlan keys objects) blocks visited) (hnone : blocks = []) :
    NothingPlanned s keys objects := by
  subst hnone
  intro i hstored
  have hvisited : visited ≤ i := Nat.le_of_not_lt fun hlt => by
    obtain ⟨b, hb, _⟩ := h.block_of_lt hlt hstored
    simp at hb
  rcases h.ended with ⟨_, hlen⟩ | ⟨_, hstop, hrefused⟩
  · rw [storedAt_of_le (hlen.trans hvisited)] at hstored
    simp at hstored
  · exact ⟨visited, hvisited, hstop, by rwa [zero_add] at hrefused⟩

theorem Built.filled
    (h : Built s objects 0 keys ⟨.ofSize keys.length, [], []⟩ (s.loadPlan keys objects) blocks visited)
    (hcompletes : answers.Completes) (hfits : Fits s keys objects) (hb : b ∈ blocks) :
    Filled s keys objects answers b.index := by
  have hlen : ∀ b ∈ blocks, b.memIndices.length = b.storageIndices.length := by
    intro b hb
    obtain ⟨_, hpages, storageObj, hstored, hstorage⟩ := h.placed_stored hb
    obtain ⟨pages, hpages', hcount⟩ := hfits b.index storageObj hstored
    obtain rfl := Option.some.inj (hpages.symm.trans hpages')
    rw [hstorage, hcount]
  obtain ⟨_, hpages, storageObj, hstored, hstorage⟩ := h.placed_stored hb
  have hnonempty : b.memIndices ≠ [] := by
    rw [Ne, ← length_eq_zero_iff, hlen b hb, hstorage, length_eq_zero_iff]
    exact storageObj.pageIndicesNonempty
  have hok : (s.loadPlan keys objects).2 = .ok () := by
    rcases h.ended with ⟨hok, _⟩ | ⟨_, hstop, hrefused⟩
    · exact hok
    · obtain ⟨storageObj, hstored⟩ := Option.isSome_iff_exists.mp hstop
      obtain ⟨pages, hpages, _⟩ := hfits visited storageObj hstored
      rw [zero_add] at hrefused
      rw [hrefused] at hpages
      simp at hpages
  refine ⟨hok, ?_, hcompletes, storageObj, hstored, b.memIndices, hpages,
    (hlen b hb).trans (by rw [hstorage]), ?_⟩
  · rw [h.planned]
    exact ne_nil_of_mem (a := b.memIndices.head hnonempty) (by
      simpa [LoadPlan.extend] using ⟨b, hb, head_mem hnonempty⟩)
  · rw [h.planned]
    simp only [LoadPlan.extend, nil_append]
    rw [zip_flatMap_of_length hlen, ← hstorage]
    intro pair hpair
    exact mem_flatMap.mpr ⟨b, hb, hpair⟩

variable {bitmap : Bitmap}

theorem loadBitmap_eq (h : s.loadBitmap keys objects answers = some bitmap) :
    bitmap = (s.loadPlan keys objects).1.bitmap := by
  rw [loadBitmap] at h
  split at h
  · rename_i hplan
    rw [hplan]
    exact (Option.some.inj h).symm
  · rename_i hplan
    rw [hplan]
    split_ifs at h
    · exact (Option.some.inj h).symm
    · obtain ⟨_, _, rfl⟩ := Option.map_eq_some_iff.mp h
      rfl

theorem loadBitmap_honest_iff (hbitmap : s.loadBitmap keys objects answers = some bitmap) :
    (∀ i, bitmap.test i = true → Filled s keys objects answers i) ↔
      NothingPlanned s keys objects ∨ answers.Completes ∧ Fits s keys objects := by
  obtain ⟨blocks, visited, h⟩ :=
    built_buildLoad s objects 0 keys ⟨.ofSize keys.length, [], []⟩
  change Built s objects 0 keys _ (s.loadPlan keys objects) blocks visited at h
  obtain rfl := loadBitmap_eq hbitmap
  constructor
  · intro hhonest
    by_cases hnone : blocks = []
    · exact .inl (h.nothingPlanned hnone)
    · obtain ⟨b, hb⟩ := exists_mem_of_ne_nil _ hnone
      obtain ⟨hok, _, hcompletes, _⟩ := hhonest b.index (h.test_bitmap.mpr ⟨b, hb, rfl⟩)
      refine .inr ⟨hcompletes, fun i storageObj hstored => ?_⟩
      have hi : i < visited := by
        refine Nat.lt_of_lt_of_le (Nat.lt_of_not_le fun hle => ?_)
          (h.ended.resolve_right fun hraised => hraised.1 hok).2
        rw [storedAt_of_le hle] at hstored
        simp at hstored
      have hbit := h.test_bitmap.mpr (h.block_of_lt hi (Option.isSome_of_mem hstored))
      obtain ⟨_, _, _, storageObj', hstored', pages, hpages, hcount, _⟩ := hhonest i hbit
      obtain rfl := Option.some.inj (Option.mem_def.mp hstored |>.symm.trans hstored')
      exact ⟨pages, hpages, hcount⟩
  · rintro (hnothing | ⟨hcompletes, hfits⟩) i hbit
    · obtain ⟨b, hb, _⟩ := h.test_bitmap.mp hbit
      exact (h.no_block hnothing hb).elim
    · obtain ⟨b, hb, rfl⟩ := h.test_bitmap.mp hbit
      exact h.filled hcompletes hfits hb

theorem queryLoadResult_submitLoadTask (h : Numbered s) (answers : XferAnswers) :
    ((s.submitLoadTask keys objects answers).queryLoadResult s.nextTaskId).1 =
      s.loadBitmap keys objects answers := by
  rw [queryLoadResult, submitLoadTask, executeLoadInLoop]
  cases s.loadBitmap keys objects answers with
  | none =>
    refine (Dict.get?_eq_none_iff _ _).mpr fun hmem => ?_
    exact lt_irrefl _ (h.loads _ hmem)
  | some bitmap => exact Dict.get?_set_self _ _ _

end Load

theorem loads_honest_iff (l1AlignBytes numTotalObjs : ℕ) (hpos : 0 < l1AlignBytes)
    (events : List (NixlEvent K)) (keys : List K) (objects : List MemoryMeta)
    (answers : XferAnswers) :
    let s : NixlStore K := Execution.final exec (init l1AlignBytes numTotalObjs hpos) events
    ∀ bitmap ∈ ((s.submitLoadTask keys objects answers).queryLoadResult s.nextTaskId).1,
      ((∀ i, bitmap.test i = true → Filled s keys objects answers i) ↔
        NothingPlanned s keys objects ∨ answers.Completes ∧ Fits s keys objects) := by
  intro s bitmap hbitmap
  rw [queryLoadResult_submitLoadTask (numbered_final l1AlignBytes numTotalObjs hpos events)] at hbitmap
  exact loadBitmap_honest_iff hbitmap

def workingXfer : XferAnswers := ⟨.ok (), .ok .proc, [.ok .done], .ok ()⟩

def failingXfer : XferAnswers := ⟨.ok (), .ok .proc, [.ok .err], .ok ()⟩

def storedPage : List (NixlEvent ℕ) := [.store [7] [⟨0, 4⟩], .storeDone 0 workingXfer]

theorem loads_honest_iff_storedPage :
    let s : NixlStore ℕ := Execution.final exec (init 4 2 (by decide)) storedPage
    ∀ bitmap ∈ ((s.submitLoadTask [7] [⟨8, 4⟩] workingXfer).queryLoadResult s.nextTaskId).1,
      ((∀ i, bitmap.test i = true → Filled s [7] [⟨8, 4⟩] workingXfer i) ↔
        NothingPlanned s [7] [⟨8, 4⟩] ∨ workingXfer.Completes ∧ Fits s [7] [⟨8, 4⟩]) :=
  loads_honest_iff 4 2 (by decide) storedPage [7] [⟨8, 4⟩] workingXfer

theorem not_loads_honest_failingXfer :
    ¬ ∀ (events : List (NixlEvent ℕ)) (keys : List ℕ) (objects : List MemoryMeta)
      (answers : XferAnswers),
      let s : NixlStore ℕ := Execution.final exec (init 4 2 (by decide)) events
      ∀ bitmap ∈ ((s.submitLoadTask keys objects answers).queryLoadResult s.nextTaskId).1,
        ∀ i, bitmap.test i = true → Filled s keys objects answers i := by
  intro h
  have hbit := h storedPage [7] [⟨8, 4⟩] failingXfer ((Bitmap.ofSize 1).set 0) (by decide +kernel)
  obtain ⟨_, _, hcompletes, _⟩ := hbit 0 (by decide +kernel)
  exact absurd hcompletes (by decide +kernel)

end NixlStore

end LMCache
