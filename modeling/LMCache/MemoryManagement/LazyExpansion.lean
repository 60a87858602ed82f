import LMCache.Foundations.Execution
import LMCache.Foundations.Offsets
import LMCache.MemoryManagement.AddressManager

namespace LMCache

open Nat

inductive ExpandWorker where
  | loopHead
  | chunk (i : ℕ)
  | finished (stopped : Bool)
  | failed
deriving DecidableEq

structure LazyMemoryAllocator where
  currSize : ℕ
  finalSize : ℕ
  dataPtr : ℕ
  pinRecord : List Region
  addressManager : AddressManager
  stopExpand : Bool
  worker : ExpandWorker
  lastCommitSize : ℕ
deriving DecidableEq

inductive ExpandEvent where
  | worker
  | stop
  | allocate (size : ℕ)
  | batchedAllocate (size : ℕ) (batchSize : ℤ)
  | free (address size : ℕ)

namespace LazyMemoryAllocator

def PIN_CHUNK_SIZE : ℕ := 2 ^ 26

def COMMIT_SIZE : ℕ := 2 ^ 30

def alignTo (size alignSize : ℕ) : ℕ := ldiff (size + alignSize - 1) (alignSize - 1)

def pinMemoryChunk (finalSize dataPtr : ℕ) (pinRecord : List Region) (offset size : ℕ) :
    Option (List Region) :=
  if offset &&& (PIN_CHUNK_SIZE - 1) = 0 ∧ size &&& (PIN_CHUNK_SIZE - 1) = 0 ∧
      offset + size ≤ finalSize then
    some (pinRecord ++ [⟨dataPtr + offset, size⟩])
  else none

def init (initSize finalSize alignBytes dataPtr : ℕ) : Option LazyMemoryAllocator :=
  let currSize := alignTo initSize PIN_CHUNK_SIZE
  let finalSize := alignTo finalSize PIN_CHUNK_SIZE
  (pinMemoryChunk finalSize dataPtr [] 0 currSize).map fun pinRecord =>
    { currSize := currSize
      finalSize := finalSize
      dataPtr := dataPtr
      pinRecord := pinRecord
      addressManager := AddressManager.init currSize alignBytes
      stopExpand := false
      worker := .loopHead
      lastCommitSize := currSize }

variable (s : LazyMemoryAllocator)

def commitExpansion : LazyMemoryAllocator :=
  { s with
    addressManager := s.addressManager.sbrk (s.currSize - s.lastCommitSize)
    lastCommitSize := s.currSize
    worker := .loopHead }

def expandWorker : LazyMemoryAllocator :=
  match s.worker with
  | .loopHead =>
      if s.currSize < s.finalSize ∧ s.stopExpand = false then { s with worker := .chunk 0 }
      else { s with worker := .finished s.stopExpand }
  | .chunk i =>
      if i < COMMIT_SIZE / PIN_CHUNK_SIZE ∧ s.currSize < s.finalSize then
        match pinMemoryChunk s.finalSize s.dataPtr s.pinRecord s.currSize PIN_CHUNK_SIZE with
        | some pinRecord =>
            { s with
              pinRecord := pinRecord
              currSize := s.currSize + PIN_CHUNK_SIZE
              worker := .chunk (i + 1) }
        | none => { s with worker := .failed }
      else s.commitExpansion
  | .finished _ | .failed => s

def exec : ExpandEvent → LazyMemoryAllocator
  | .worker => s.expandWorker
  | .stop => { s with stopExpand := true }
  | .allocate size => { s with addressManager := (s.addressManager.allocate size).2 }
  | .batchedAllocate size batchSize =>
      { s with addressManager := (s.addressManager.batchedAllocate size batchSize).2 }
  | .free address size => { s with addressManager := s.addressManager.free address size }

structure Backed (s : LazyMemoryAllocator) : Prop where
  chained : Region.Chained s.dataPtr s.pinRecord
  heap_le : s.addressManager.getHeapSize ≤ Region.total s.pinRecord
  pinned_le : Region.total s.pinRecord ≤ s.finalSize
  asserted : s.worker ≠ .failed
  committed : s.worker = .finished false → s.addressManager.getHeapSize = s.finalSize

structure Expanding (alignBytes : ℕ) (s : LazyMemoryAllocator) : Prop where
  aligned : s.addressManager.align = alignBytes
  chained : Region.Chained s.dataPtr s.pinRecord
  pinned : Region.total s.pinRecord = s.currSize
  heap : s.addressManager.size = s.lastCommitSize
  commit_le : s.lastCommitSize ≤ s.currSize
  curr_le : s.currSize ≤ s.finalSize
  chunks : PIN_CHUNK_SIZE ∣ s.lastCommitSize ∧ PIN_CHUNK_SIZE ∣ s.currSize ∧
    PIN_CHUNK_SIZE ∣ s.finalSize
  asserted : s.worker ≠ .failed
  outside : (∀ i, s.worker ≠ .chunk i) → s.lastCommitSize = s.currSize
  ended : s.worker = .finished false → s.currSize = s.finalSize

theorem alignTo_chunk (size : ℕ) : PIN_CHUNK_SIZE ∣ alignTo size PIN_CHUNK_SIZE :=
  Alignment.dvd_roundUp 26 size

theorem alignTo_mono {a b : ℕ} (h : a ≤ b) :
    alignTo a PIN_CHUNK_SIZE ≤ alignTo b PIN_CHUNK_SIZE := by
  have hdiv : (a + 2 ^ 26 - 1) / 2 ^ 26 ≤ (b + 2 ^ 26 - 1) / 2 ^ 26 := Nat.div_le_div_right (by omega)
  rw [alignTo, alignTo, PIN_CHUNK_SIZE, Alignment.ldiff_low_bits, Alignment.ldiff_low_bits]
  exact mul_le_mul_left _ hdiv

theorem computeAlignedSize_of_dvd {m : AddressManager} {k size : ℕ} (halign : m.align = 2 ^ k)
    (hdvd : 2 ^ k ∣ size) : m.computeAlignedSize size = size := by
  obtain ⟨j, rfl⟩ := hdvd
  have hpos : 0 < 2 ^ k := Nat.two_pow_pos k
  rw [AddressManager.computeAlignedSize, halign, Alignment.ldiff_low_bits,
    Nat.add_sub_assoc hpos, Nat.mul_add_div hpos, Nat.div_eq_of_lt (by omega), Nat.add_zero]

theorem pinMemoryChunk_aligned {finalSize dataPtr : ℕ} {pinRecord : List Region} {offset size : ℕ}
    (hoffset : PIN_CHUNK_SIZE ∣ offset) (hsize : PIN_CHUNK_SIZE ∣ size)
    (hle : offset + size ≤ finalSize) :
    pinMemoryChunk finalSize dataPtr pinRecord offset size =
      some (pinRecord ++ [⟨dataPtr + offset, size⟩]) := by
  have hmask : ∀ {x : ℕ}, PIN_CHUNK_SIZE ∣ x → x &&& (PIN_CHUNK_SIZE - 1) = 0 := by
    intro x hx
    rw [PIN_CHUNK_SIZE, and_two_pow_sub_one_eq_mod]
    exact mod_eq_zero_of_dvd hx
  rw [pinMemoryChunk, if_pos ⟨hmask hoffset, hmask hsize, hle⟩]

theorem chained_snoc {a n : ℕ} {rs : List Region} (h : Region.Chained a rs) :
    Region.Chained a (rs ++ [⟨a + Region.total rs, n⟩]) := by
  induction rs generalizing a with
  | nil => exact ⟨rfl, trivial⟩
  | cons r rs ih =>
    obtain ⟨rfl, hrest⟩ := h
    refine ⟨rfl, ?_⟩
    have hsnoc := ih hrest
    rwa [Region.stop, add_assoc, ← Region.total_cons] at hsnoc

theorem manager_allocate (m : AddressManager) (size : ℕ) :
    (m.allocate size).2.size = m.size ∧ (m.allocate size).2.align = m.align := by
  simp only [AddressManager.allocate]
  split <;> exact ⟨rfl, rfl⟩

theorem manager_batchedAllocate (m : AddressManager) (size : ℕ) (batchSize : ℤ) :
    (m.batchedAllocate size batchSize).2.size = m.size ∧
      (m.batchedAllocate size batchSize).2.align = m.align := by
  simp only [AddressManager.batchedAllocate]
  split_ifs <;> exact ⟨rfl, rfl⟩

variable {s : LazyMemoryAllocator} {alignBytes k : ℕ}

theorem Expanding.of_manager (h : Expanding alignBytes s) {m : AddressManager}
    (hm : m.size = s.addressManager.size ∧ m.align = s.addressManager.align) :
    Expanding alignBytes { s with addressManager := m } :=
  { h with aligned := hm.2.trans h.aligned, heap := hm.1.trans h.heap }

theorem Expanding.commitExpansion (h : Expanding (2 ^ k) s) (hk : 2 ^ k ∣ PIN_CHUNK_SIZE) :
    Expanding (2 ^ k) s.commitExpansion := by
  have hgrow : s.addressManager.computeAlignedSize (s.currSize - s.lastCommitSize) =
      s.currSize - s.lastCommitSize :=
    computeAlignedSize_of_dvd h.aligned (hk.trans (dvd_sub h.chunks.2.1 h.chunks.1))
  refine { h with
    heap := ?_, commit_le := le_rfl, chunks := ⟨h.chunks.2.1, h.chunks.2⟩,
    asserted := by simp [LazyMemoryAllocator.commitExpansion], outside := fun _ => rfl,
    ended := by simp [LazyMemoryAllocator.commitExpansion] }
  have hheap := h.heap
  have hle := h.commit_le
  simp only [LazyMemoryAllocator.commitExpansion, AddressManager.sbrk, hgrow]
  omega

theorem Expanding.pin (h : Expanding alignBytes s) (hlt : s.currSize < s.finalSize) (i : ℕ) :
    pinMemoryChunk s.finalSize s.dataPtr s.pinRecord s.currSize PIN_CHUNK_SIZE =
        some (s.pinRecord ++ [⟨s.dataPtr + s.currSize, PIN_CHUNK_SIZE⟩]) ∧
      Expanding alignBytes { s with
        pinRecord := s.pinRecord ++ [⟨s.dataPtr + s.currSize, PIN_CHUNK_SIZE⟩]
        currSize := s.currSize + PIN_CHUNK_SIZE
        worker := .chunk (i + 1) } := by
  obtain ⟨hlast, hcurr, hfinal⟩ := h.chunks
  have hroom : s.currSize + PIN_CHUNK_SIZE ≤ s.finalSize := by
    have := le_of_dvd (by omega) (dvd_sub hfinal hcurr)
    omega
  have hcommit := h.commit_le
  refine ⟨pinMemoryChunk_aligned hcurr dvd_rfl hroom, { h with
    chained := ?_, pinned := ?_, commit_le := by dsimp only; omega, curr_le := hroom,
    chunks := ⟨hlast, Nat.dvd_add hcurr dvd_rfl, hfinal⟩, asserted := by simp,
    outside := fun hout => absurd rfl (hout (i + 1)), ended := by simp }⟩
  · have hsnoc := chained_snoc (n := PIN_CHUNK_SIZE) h.chained
    rwa [h.pinned] at hsnoc
  · rw [← h.pinned]
    simp [Region.total]

theorem Expanding.expandWorker (h : Expanding (2 ^ k) s) (hk : 2 ^ k ∣ PIN_CHUNK_SIZE) :
    Expanding (2 ^ k) s.expandWorker := by
  unfold LazyMemoryAllocator.expandWorker
  split
  next hhead =>
    have hcommitted := h.outside (by simp [hhead])
    split_ifs with hloop
    · exact { h with asserted := by simp, outside := fun _ => hcommitted, ended := by simp }
    · refine { h with asserted := by simp, outside := fun _ => hcommitted, ended := fun hend => ?_ }
      have hnot : s.stopExpand = false := by simpa using hend
      have hle := h.curr_le
      dsimp only
      by_contra hne
      exact hloop ⟨by omega, hnot⟩
  next i hchunk =>
    split_ifs with hroom
    · rw [(h.pin hroom.2 i).1]
      exact (h.pin hroom.2 i).2
    · exact h.commitExpansion hk
  next => exact h
  next => exact h

def turnsLeft (s : LazyMemoryAllocator) : ℕ :=
  let left := 3 * (s.finalSize - s.currSize)
  match s.worker with
  | .loopHead => left + 1
  | .chunk i => if i = 0 ∧ left ≠ 0 then left else left + 2
  | .finished _ | .failed => 0

theorem Expanding.turnsLeft_lt (h : Expanding alignBytes s) (hrun : s.turnsLeft ≠ 0) :
    s.expandWorker.turnsLeft < s.turnsLeft := by
  have hle := h.curr_le
  unfold LazyMemoryAllocator.expandWorker
  split
  next hhead =>
    split_ifs with hloop
    · have hleft : 3 * (s.finalSize - s.currSize) ≠ 0 := by omega
      simp [turnsLeft, hhead, hleft]
    · simp [turnsLeft, hhead]
  next i hchunk =>
    split_ifs with hroom
    · rw [(h.pin hroom.2 i).1]
      have : 0 < PIN_CHUNK_SIZE := by decide
      simp only [turnsLeft, hchunk]
      split_ifs <;> omega
    · simp only [turnsLeft, hchunk, LazyMemoryAllocator.commitExpansion]
      split_ifs with hfirst
      · exact absurd ⟨by rw [hfirst.1]; decide, by omega⟩ hroom
      · omega
  next hend => exact absurd (by simp [turnsLeft, hend]) hrun
  next hend => exact absurd (by simp [turnsLeft, hend]) hrun

theorem unstopped_expandWorker (hgo : s.stopExpand = false)
    (hended : ∀ stopped, s.worker = .finished stopped → stopped = false) :
    s.expandWorker.stopExpand = false ∧
      ∀ stopped, s.expandWorker.worker = .finished stopped → stopped = false := by
  unfold LazyMemoryAllocator.expandWorker
  split
  · split_ifs <;> simp [hgo]
  · split_ifs
    · split <;> simp [hgo]
    · simp [LazyMemoryAllocator.commitExpansion, hgo]
  · exact ⟨hgo, hended⟩
  · exact ⟨hgo, hended⟩

-- unless it is told to stop, the worker ends with the whole buffer pinned and committed
theorem Expanding.finishes (h : Expanding (2 ^ k) s) (hk : 2 ^ k ∣ PIN_CHUNK_SIZE)
    (hgo : s.stopExpand = false)
    (hended : ∀ stopped, s.worker = .finished stopped → stopped = false) :
    ∃ n ≤ s.turnsLeft, (LazyMemoryAllocator.expandWorker^[n] s).worker = .finished false := by
  induction hleft : s.turnsLeft using Nat.strong_induction_on generalizing s with
  | h left ih =>
    by_cases hrun : s.turnsLeft = 0
    · cases hworker : s.worker with
      | loopHead => simp [turnsLeft, hworker] at hrun
      | chunk i =>
        simp only [turnsLeft, hworker] at hrun
        split_ifs at hrun
        · omega
      | failed => exact absurd hworker h.asserted
      | finished stopped => exact ⟨0, Nat.zero_le _, by simp [hworker, hended stopped hworker]⟩
    · have hlt := h.turnsLeft_lt hrun
      obtain ⟨hgo', hended'⟩ := unstopped_expandWorker hgo hended
      obtain ⟨n, hn, hfinal⟩ := ih _ (hleft ▸ hlt) (h.expandWorker hk) hgo' hended' rfl
      exact ⟨n + 1, by omega, hfinal⟩

example : (init 1 (2 ^ 27) (2 ^ 12) 0).map (fun s =>
    (LazyMemoryAllocator.expandWorker^[5] s).worker) = some (.finished false) := by decide +kernel

theorem Expanding.exec (h : Expanding (2 ^ k) s) (hk : 2 ^ k ∣ PIN_CHUNK_SIZE) (ev : ExpandEvent) :
    Expanding (2 ^ k) (s.exec ev) := by
  cases ev with
  | worker => exact h.expandWorker hk
  | stop => exact { h with }
  | allocate size => exact h.of_manager (manager_allocate s.addressManager size)
  | batchedAllocate size batchSize =>
    exact h.of_manager (manager_batchedAllocate s.addressManager size batchSize)
  | free address size => exact h.of_manager ⟨rfl, rfl⟩

theorem Expanding.backed (h : Expanding alignBytes s) : s.Backed where
  chained := h.chained
  heap_le := by
    rw [AddressManager.getHeapSize, h.heap, h.pinned]
    exact h.commit_le
  pinned_le := h.pinned.trans_le h.curr_le
  asserted := h.asserted
  committed hend := by
    rw [AddressManager.getHeapSize, h.heap, ← h.ended hend]
    exact h.outside (by simp [hend])

theorem init_expanding {initSize finalSize : ℕ} (hle : initSize ≤ finalSize) (alignBytes dataPtr : ℕ) :
    ∃ s, init initSize finalSize alignBytes dataPtr = some s ∧ Expanding alignBytes s := by
  have hroom := alignTo_mono hle
  have hcurr := alignTo_chunk initSize
  have hfinal := alignTo_chunk finalSize
  rw [init]
  generalize alignTo initSize PIN_CHUNK_SIZE = currSize at *
  generalize alignTo finalSize PIN_CHUNK_SIZE = lastSize at *
  rw [pinMemoryChunk_aligned (dvd_zero _) hcurr ((zero_add _).trans_le hroom)]
  exact ⟨_, rfl, { aligned := rfl, chained := ⟨rfl, trivial⟩, pinned := List.sum_singleton
                   heap := rfl, commit_le := le_rfl, curr_le := hroom
                   chunks := ⟨hcurr, hcurr, hfinal⟩
                   asserted := by simp, outside := fun _ => rfl, ended := by simp }⟩

theorem backed_run {initSize finalSize : ℕ} (hle : initSize ≤ finalSize)
    (hk : 2 ^ k ∣ PIN_CHUNK_SIZE) (dataPtr : ℕ) (evs : List ExpandEvent) :
    ∃ s, init initSize finalSize (2 ^ k) dataPtr = some s ∧ (Execution.final exec s evs).Backed := by
  obtain ⟨s, hinit, h⟩ := init_expanding hle (2 ^ k) dataPtr
  have hfinal : Expanding (2 ^ k) (Execution.final exec s evs) :=
    Execution.invariant_final (Q := fun _ _ => True) (fun s ev hs _ => hs.exec hk ev) h
      (Execution.along_of_forall (fun _ _ => trivial) s evs)
  exact ⟨s, hinit, hfinal.backed⟩

theorem backed_run_stopped :
    ∃ s, init 1 (2 ^ 28) (2 ^ 12) 0 = some s ∧
      (Execution.final exec s [.worker, .allocate 4096, .worker, .stop, .worker]).Backed :=
  backed_run (by decide) (by decide) 0 [.worker, .allocate 4096, .worker, .stop, .worker]

end LazyMemoryAllocator

end LMCache
