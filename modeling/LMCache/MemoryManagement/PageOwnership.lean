import Mathlib.Algebra.Order.Ring.Nat
import LMCache.Foundations.Execution
import LMCache.MemoryManagement.PagedAllocator

namespace LMCache

open List PagedTensorMemoryAllocator

structure PageBooks (Λ : Type) where
  buffer : PagedBuffer Λ
  freeBlocks : List ℕ
  outstanding : List ℕ
  numActiveAllocations : ℤ
  totalAllocatedSize : ℤ

namespace PageBooks

variable {Λ : Type} {b : PageBooks Λ}

def free (b : PageBooks Λ) (page : ℕ) : PageBooks Λ :=
  { b with
    freeBlocks := b.freeBlocks ++ [page]
    outstanding := b.outstanding.erase page
    numActiveAllocations := b.numActiveAllocations - 1
    totalAllocatedSize := b.totalAllocatedSize - b.buffer.alignBytes }

structure OneOwner (b : PageBooks Λ) : Prop where
  page : ∀ page < b.buffer.numPages,
    b.freeBlocks.count page = 1 ∧ b.outstanding.count page = 0 ∨
      b.freeBlocks.count page = 0 ∧ b.outstanding.count page = 1
  size : (b.freeBlocks.length * b.buffer.alignBytes : ℤ) + b.totalAllocatedSize = b.buffer.bufferSize

structure Owned (b : PageBooks Λ) : Prop where
  pages : (b.freeBlocks ++ b.outstanding).Perm (range b.buffer.numPages)
  active : b.numActiveAllocations = b.outstanding.length
  total : b.totalAllocatedSize = b.numActiveAllocations * b.buffer.alignBytes

theorem numPages_mul (buffer : PagedBuffer Λ) :
    buffer.numPages * buffer.alignBytes = buffer.bufferSize :=
  Nat.div_mul_cancel (Nat.dvd_of_mod_eq_zero buffer.aligned)

theorem Owned.nodup (h : b.Owned) : (b.freeBlocks ++ b.outstanding).Nodup :=
  h.pages.nodup_iff.mpr nodup_range

theorem Owned.count (h : b.Owned) {page : ℕ} (hpage : page < b.buffer.numPages) :
    b.freeBlocks.count page + b.outstanding.count page = 1 := by
  rw [← count_append, h.pages.count_eq]
  exact count_eq_one_of_mem nodup_range (mem_range.mpr hpage)

theorem Owned.oneOwner (h : b.Owned) : b.OneOwner := by
  constructor
  · intro page hpage
    have hcount := h.count hpage
    omega
  · have hlength := h.pages.length_eq
    rw [length_append, length_range] at hlength
    rw [h.total, h.active, ← numPages_mul b.buffer, ← hlength]
    push_cast
    rw [Int.add_mul]

theorem Owned.free (h : b.Owned) {page : ℕ} (hpage : page ∈ b.outstanding) : (b.free page).Owned := by
  constructor
  · have hback : (page :: b.outstanding.erase page).Perm b.outstanding :=
      (perm_cons_erase hpage).symm
    refine .trans ?_ h.pages
    change (b.freeBlocks ++ [page] ++ b.outstanding.erase page).Perm _
    rw [append_assoc]
    exact hback.append_left _
  · have hpos : 0 < b.outstanding.length := length_pos_of_mem hpage
    change b.numActiveAllocations - 1 = ((b.outstanding.erase page).length : ℤ)
    rw [h.active, length_erase_of_mem hpage]
    omega
  · change b.totalAllocatedSize - b.buffer.alignBytes =
      (b.numActiveAllocations - 1) * b.buffer.alignBytes
    rw [h.total, Int.sub_mul, Int.one_mul]

variable {b' : PageBooks Λ}

theorem Owned.release {Last : Prop} [Decidable Last] (h : b.Owned) {page : ℕ}
    (hpage : page ∈ b.outstanding) (hbooks : b' = if Last then b.free page else b) : b'.Owned := by
  rw [hbooks]
  split_ifs
  · exact h.free hpage
  · exact h

theorem Owned.take (h : b.Owned) {pages : List ℕ} (hbuffer : b'.buffer = b.buffer)
    (hfree : (pages ++ b'.freeBlocks).Perm b.freeBlocks)
    (hout : b'.outstanding = b.outstanding ++ pages)
    (hactive : b'.numActiveAllocations = b.numActiveAllocations + pages.length)
    (htotal : b'.totalAllocatedSize = b'.numActiveAllocations * b.buffer.alignBytes) :
    b'.Owned := by
  constructor
  · rw [hbuffer, hout]
    refine (perm_append_comm.trans ?_).trans ((hfree.append_right _).trans h.pages)
    rw [append_assoc]
    exact perm_append_comm
  · rw [hactive, h.active, hout, length_append]
    push_cast
    rfl
  · rw [htotal, hbuffer]

end PageBooks

namespace PagedTensorMemoryAllocator

variable {Λ : Type} (a : PagedTensorMemoryAllocator Λ)

def books : PageBooks Λ :=
  ⟨a.buffer, a.freeBlocks, a.outstanding, a.numActiveAllocations, a.totalAllocatedSize⟩

def LastRef (page : ℕ) : Prop :=
  a.refCount page ≤ 1 ∧ a.pinCount page = 0

def LastPin (page : ℕ) : Prop :=
  a.pinCount page ≤ 1 ∧ a.refCount page ≤ 0

instance (a : PagedTensorMemoryAllocator Λ) (page : ℕ) : Decidable (a.LastRef page) :=
  inferInstanceAs (Decidable (_ ∧ _))

instance (a : PagedTensorMemoryAllocator Λ) (page : ℕ) : Decidable (a.LastPin page) :=
  inferInstanceAs (Decidable (_ ∧ _))

@[simp] theorem books_setRefCount (page : ℕ) (count : ℤ) :
    (a.setRefCount page count).books = a.books := rfl

@[simp] theorem books_setPinCount (page : ℕ) (count : ℤ) :
    (a.setPinCount page count).books = a.books := rfl

@[simp] theorem refCount_setRefCount (page page' : ℕ) (count : ℤ) :
    (a.setRefCount page count).refCount page' = if page' = page then count else a.refCount page' := by
  simp only [setRefCount, modify, refCount]
  split_ifs <;> rfl

@[simp] theorem pinCount_setPinCount (page page' : ℕ) (count : ℤ) :
    (a.setPinCount page count).pinCount page' = if page' = page then count else a.pinCount page' := by
  simp only [setPinCount, modify, pinCount]
  split_ifs <;> rfl

@[simp] theorem pinCount_setRefCount (page page' : ℕ) (count : ℤ) :
    (a.setRefCount page count).pinCount page' = a.pinCount page' := by
  simp only [setRefCount, modify, pinCount]
  split_ifs with h
  · rw [h]
  · rfl

@[simp] theorem refCount_setPinCount (page page' : ℕ) (count : ℤ) :
    (a.setPinCount page count).refCount page' = a.refCount page' := by
  simp only [setPinCount, modify, refCount]
  split_ifs with h
  · rw [h]
  · rfl

variable {a a' : PagedTensorMemoryAllocator Λ} {page : ℕ} {held held' : List ℕ}

-- what an allocation that hands out these pages does to the lists and the counts
structure Takes (a a' : PagedTensorMemoryAllocator Λ) (pages : List ℕ) : Prop where
  buffer : a'.buffer = a.buffer
  free : (pages ++ a'.freeBlocks).Perm a.freeBlocks
  outstanding : a'.outstanding = a.outstanding ++ pages
  active : a'.numActiveAllocations = a.numActiveAllocations + pages.length
  total : a.totalAllocatedSize = a.numActiveAllocations * a.buffer.alignBytes →
    a'.totalAllocatedSize = a'.numActiveAllocations * a.buffer.alignBytes
  pins : ∀ page, a'.pinCount page = a.pinCount page
  ones : ∀ page ∈ pages, a'.refCount page = 1
  kept : ∀ page, page ∉ a.freeBlocks → a'.refCount page = a.refCount page

-- an object that a holder has, or that has a pin counted, is out, and an object that is out
-- counts the references its holders have
structure Counted (a : PagedTensorMemoryAllocator Λ) (held : List ℕ) : Prop where
  owned : a.books.Owned
  out : ∀ page, page ∈ held ∨ 0 < a.pinCount page → page ∈ a.outstanding
  refs : ∀ page ∈ a.outstanding, a.refCount page = held.count page

theorem Counted.take (h : Counted a held) {pages : List ℕ} (htakes : Takes a a' pages) :
    Counted a' (held ++ pages) := by
  obtain ⟨hfree, _, hapart⟩ := nodup_append.mp h.owned.nodup
  have hnodup := (nodup_append.mp (htakes.free.nodup_iff.mpr hfree)).1
  have hnew : ∀ page ∈ pages, page ∉ a.outstanding := fun page hpage hout =>
    hapart page (htakes.free.subset (mem_append_left _ hpage)) page hout rfl
  refine ⟨h.owned.take htakes.buffer htakes.free htakes.outstanding htakes.active
    (htakes.total h.owned.total), fun page hheld => ?_, fun page hpage => ?_⟩
  · rw [htakes.pins, mem_append] at hheld
    rw [htakes.outstanding, mem_append]
    rcases hheld with (hold | htaken) | hpinned
    · exact .inl (h.out page (.inl hold))
    · exact .inr htaken
    · exact .inl (h.out page (.inr hpinned))
  · rw [htakes.outstanding] at hpage
    rw [count_append]
    rcases mem_append.mp hpage with hold | htaken
    · have hnot : page ∉ pages := fun hmem => hnew page hmem hold
      rw [htakes.kept page fun hmem => hapart page hmem page hold rfl, h.refs page hold,
        count_eq_zero_of_not_mem hnot, Nat.add_zero]
    · have hnot : page ∉ held := fun hmem => hnew page htaken (h.out page (.inl hmem))
      rw [htakes.ones page htaken, count_eq_zero_of_not_mem hnot, count_eq_one_of_mem hnodup htaken]
      rfl

theorem Counted.change {P : Prop} [Decidable P] (h : Counted a held)
    (hpage : page ∈ a.outstanding)
    (hbooks : a'.books = if P then a.books.free page else a.books)
    (hothers : ∀ page' ≠ page, a'.refCount page' = a.refCount page' ∧
      a'.pinCount page' = a.pinCount page' ∧ held'.count page' = held.count page')
    (hself : a'.refCount page = held'.count page)
    (hlast : P → page ∉ held' ∧ a'.pinCount page ≤ 0) : Counted a' held' := by
  have hout : ∀ page', page' ∈ held' ∨ 0 < a'.pinCount page' → page' ∈ a.outstanding := by
    intro page' hheld
    rcases eq_or_ne page' page with rfl | hne
    · exact hpage
    · obtain ⟨_, hpin, hcount⟩ := hothers page' hne
      rw [hpin, ← count_pos_iff, hcount, count_pos_iff] at hheld
      exact h.out page' hheld
  have hrefs : ∀ page' ∈ a.outstanding, a'.refCount page' = held'.count page' := by
    intro page' hmem
    rcases eq_or_ne page' page with rfl | hne
    · exact hself
    · obtain ⟨href, _, hcount⟩ := hothers page' hne
      rw [href, hcount, h.refs page' hmem]
  have hleft : a'.outstanding = _ := congrArg PageBooks.outstanding hbooks
  refine ⟨h.owned.release hpage hbooks, ?_, ?_⟩
  · rw [hleft]
    split_ifs with hlast'
    · obtain ⟨hnot, hpin⟩ := hlast hlast'
      refine fun page' hheld => (mem_erase_of_ne ?_).mpr (hout page' hheld)
      rintro rfl
      exact hheld.elim hnot (by omega)
    · exact hout
  · rw [hleft]
    split_ifs
    · exact fun page' hmem => hrefs page' (mem_of_mem_erase hmem)
    · exact hrefs

variable [DecidableEq Λ]

@[simp] theorem books_free (page : ℕ) :
    (a.free page).books = a.books.free page := rfl

theorem metadata_pushBlock (page page' : ℕ) :
    ((a.pushBlock page).objects page').metadata = (a.objects page').metadata := by
  simp only [pushBlock, modify, restore]
  split_ifs with hpage
  · rw [hpage]
  · rw [hpage]
  · rfl

@[simp] theorem refCount_free (page page' : ℕ) : (a.free page).refCount page' = a.refCount page' :=
  congrArg MemoryObjMetadata.refCount (a.metadata_pushBlock page page')

@[simp] theorem pinCount_free (page page' : ℕ) : (a.free page).pinCount page' = a.pinCount page' :=
  congrArg MemoryObjMetadata.pinCount (a.metadata_pushBlock page page')

theorem refCount_refCountDown (page page' : ℕ) :
    (a.refCountDown page).refCount page' =
      if page' = page then max (a.refCount page - 1) 0 else a.refCount page' := by
  have hclamp : (if a.refCount page - 1 < 0 then 0 else a.refCount page - 1) =
      max (a.refCount page - 1) 0 := by
    split_ifs <;> omega
  simp only [refCountDown, hclamp]
  split_ifs <;> simp [*]

theorem pinCount_refCountDown (page page' : ℕ) :
    (a.refCountDown page).pinCount page' = a.pinCount page' := by
  simp only [refCountDown]
  split_ifs <;> simp

theorem refCount_unpin (page page' : ℕ) : (a.unpin page).refCount page' = a.refCount page' := by
  simp only [unpin]
  split_ifs <;> simp

theorem pinCount_unpin (page page' : ℕ) :
    (a.unpin page).pinCount page' =
      if page' = page then max (a.pinCount page - 1) 0 else a.pinCount page' := by
  simp only [unpin]
  split_ifs <;> simp [*] <;> omega

theorem books_refCountDown (page : ℕ) :
    (a.refCountDown page).books = if a.LastRef page then a.books.free page else a.books := by
  have hlast : ((if a.refCount page - 1 < 0 then 0 else a.refCount page - 1) = 0 ∧
      a.pinCount page = 0) ↔ a.LastRef page := by
    refine and_congr_left fun _ => ?_
    split_ifs <;> omega
  simp only [refCountDown, pinCount_setRefCount, hlast]
  split_ifs <;> simp

theorem books_unpin (page : ℕ) :
    (a.unpin page).books = if a.LastPin page then a.books.free page else a.books := by
  have hlast : (a.pinCount page - 1 ≤ 0 ∧ a.refCount page ≤ 0) ↔ a.LastPin page := by
    refine and_congr_left fun _ => ?_
    omega
  simp only [unpin, refCount_setPinCount, hlast]
  split_ifs <;> simp

theorem books_popBlock {shapes : Λ} {a' : PagedTensorMemoryAllocator Λ}
    (h : a.popBlock shapes = some (page, a')) :
    a.freeBlocks = page :: a'.freeBlocks ∧ a'.books = { a.books with freeBlocks := a'.freeBlocks } := by
  cases hfree : a.freeBlocks with
  | nil => simp [popBlock, hfree] at h
  | cons head rest =>
    simp only [popBlock, hfree, Option.some.injEq, Prod.mk.injEq] at h
    obtain ⟨rfl, rfl⟩ := h
    exact ⟨rfl, rfl⟩

theorem books_putBack (pages : List ℕ) (a : PagedTensorMemoryAllocator Λ) :
    (pages.foldl pushBlock a).books = { a.books with freeBlocks := a.freeBlocks ++ pages } := by
  induction pages generalizing a with
  | nil => rw [append_nil]; rfl
  | cons page pages ih =>
    rw [foldl_cons, ih]
    simp only [books, pushBlock, modify, append_assoc, singleton_append]

variable (shapes : Λ)

theorem books_takeBlocks (n : ℕ) (a : PagedTensorMemoryAllocator Λ) (taken : List ℕ) :
    ((takeBlocks shapes n a taken).1 = none ∧ ∃ blocks, blocks.Perm (taken ++ a.freeBlocks) ∧
      (takeBlocks shapes n a taken).2.books = { a.books with freeBlocks := blocks }) ∨
    ∃ pages rest, (takeBlocks shapes n a taken).1 = some (taken ++ pages) ∧ pages.length = n ∧
      a.freeBlocks = pages ++ rest ∧
      (takeBlocks shapes n a taken).2.books = { a.books with freeBlocks := rest } := by
  induction n generalizing a taken with
  | zero => exact .inr ⟨[], a.freeBlocks, by rw [append_nil]; rfl, rfl, rfl, rfl⟩
  | succ n ih =>
    cases hpop : a.popBlock shapes with
    | none =>
      simp only [takeBlocks, hpop]
      exact .inl ⟨trivial, _, perm_append_comm, books_putBack taken a⟩
    | some popped =>
      obtain ⟨page, a'⟩ := popped
      obtain ⟨hfree, hbooks⟩ := books_popBlock hpop
      simp only [takeBlocks, hpop]
      rcases ih a' (taken ++ [page]) with ⟨hnone, blocks, hperm, hafter⟩ |
        ⟨pages, rest, hsome, hlength, hrest, hafter⟩
      · refine .inl ⟨hnone, blocks, ?_, hafter.trans (by rw [hbooks])⟩
        rw [hfree]
        rwa [append_assoc] at hperm
      · refine .inr ⟨page :: pages, rest, ?_, by rw [length_cons, hlength], ?_,
          hafter.trans (by rw [hbooks])⟩
        · rw [hsome, append_assoc]
          rfl
        · rw [hfree, hrest]
          rfl

theorem counts_popBlock {shapes : Λ} {a' : PagedTensorMemoryAllocator Λ}
    (h : a.popBlock shapes = some (page, a')) (page' : ℕ) :
    a'.pinCount page' = a.pinCount page' ∧
      a'.refCount page' = if page' = page then 1 else a.refCount page' := by
  cases hfree : a.freeBlocks with
  | nil => simp [popBlock, hfree] at h
  | cons head rest =>
    simp only [popBlock, hfree, Option.some.injEq, Prod.mk.injEq] at h
    obtain ⟨rfl, rfl⟩ := h
    simp only [modify, pinCount, refCount]
    split_ifs with hpage
    · exact ⟨by rw [hpage]; rfl, rfl⟩
    · exact ⟨rfl, rfl⟩

theorem metadata_putBack (pages : List ℕ) (a : PagedTensorMemoryAllocator Λ) (page : ℕ) :
    ((pages.foldl pushBlock a).objects page).metadata = (a.objects page).metadata := by
  induction pages generalizing a with
  | nil => rfl
  | cons page' pages ih => rw [foldl_cons, ih, metadata_pushBlock]

theorem counts_takeBlocks (n : ℕ) (a : PagedTensorMemoryAllocator Λ) (taken : List ℕ)
    (htaken : ∀ page ∈ taken, a.refCount page = 1) :
    (∀ page, (takeBlocks shapes n a taken).2.pinCount page = a.pinCount page) ∧
      (∀ page, page ∉ a.freeBlocks →
        (takeBlocks shapes n a taken).2.refCount page = a.refCount page) ∧
      ∀ pages, (takeBlocks shapes n a taken).1 = some pages →
        ∀ page ∈ pages, (takeBlocks shapes n a taken).2.refCount page = 1 := by
  induction n generalizing a taken with
  | zero => exact ⟨fun _ => rfl, fun _ _ => rfl, fun pages hsome => Option.some.inj hsome ▸ htaken⟩
  | succ n ih =>
    cases hpop : a.popBlock shapes with
    | none =>
      simp only [takeBlocks, hpop]
      have hsame := a.metadata_putBack taken
      exact ⟨fun page => congrArg MemoryObjMetadata.pinCount (hsame page),
        fun page _ => congrArg MemoryObjMetadata.refCount (hsame page), fun _ hsome => nomatch hsome⟩
    | some popped =>
      obtain ⟨page, a'⟩ := popped
      have hcounts := counts_popBlock hpop
      have hfree := (books_popBlock hpop).1
      obtain ⟨hpins, hrefs, hones⟩ := ih a' (taken ++ [page]) fun page' hmem => by
        rw [(hcounts page').2]
        split_ifs with hpage
        · rfl
        · exact htaken page' ((mem_append.mp hmem).resolve_right fun h => hpage (mem_singleton.mp h))
      simp only [takeBlocks, hpop]
      refine ⟨fun page' => (hpins page').trans (hcounts page').1, fun page' hnot => ?_, hones⟩
      rw [hfree, mem_cons, not_or] at hnot
      rw [hrefs page' hnot.2, (hcounts page').2, if_neg hnot.1]

theorem takes_allocate : Takes a (a.allocate shapes).2 (a.allocate shapes).1.toList := by
  cases hpop : a.popBlock shapes with
  | none =>
    simp only [allocate, hpop]
    exact ⟨rfl, .refl _, (append_nil _).symm, (Int.add_zero _).symm, id, fun _ => rfl,
      fun _ h => absurd h not_mem_nil, fun _ _ => rfl⟩
  | some popped =>
    obtain ⟨page, a'⟩ := popped
    obtain ⟨hfree, hbooks⟩ := books_popBlock hpop
    have hcounts := counts_popBlock hpop
    have hbuffer : a'.buffer = a.buffer := congrArg PageBooks.buffer hbooks
    have hout : a'.outstanding = a.outstanding := congrArg PageBooks.outstanding hbooks
    have hactive : a'.numActiveAllocations = a.numActiveAllocations :=
      congrArg PageBooks.numActiveAllocations hbooks
    have htotal : a'.totalAllocatedSize = a.totalAllocatedSize :=
      congrArg PageBooks.totalAllocatedSize hbooks
    simp only [allocate, hpop]
    refine ⟨hbuffer, .of_eq hfree.symm, by rw [hout]; rfl, by rw [hactive]; rfl, fun hold => ?_,
      fun page' => (hcounts page').1, fun page' hmem => ?_, fun page' hnot => ?_⟩
    · simp only [hactive, htotal, hbuffer, hold, Int.add_mul, Int.one_mul]
    · exact (hcounts page').2.trans (if_pos (mem_singleton.mp hmem))
    · rw [hfree, mem_cons, not_or] at hnot
      exact (hcounts page').2.trans (if_neg hnot.1)

theorem takes_batchedAllocate (batchSize : ℕ) :
    Takes a (a.batchedAllocate shapes batchSize).2 ((a.batchedAllocate shapes batchSize).1.getD []) := by
  have hspec := books_takeBlocks shapes batchSize a []
  obtain ⟨hpins, hrefs, hones⟩ := counts_takeBlocks shapes batchSize a [] fun _ h => absurd h not_mem_nil
  generalize hloop : takeBlocks shapes batchSize a [] = loop at hspec hpins hrefs hones
  obtain ⟨answer, a'⟩ := loop
  have hbooks : ∃ blocks, a'.books = { a.books with freeBlocks := blocks } := by
    rcases hspec with ⟨_, blocks, _, hbooks⟩ | ⟨_, rest, _, _, _, hbooks⟩
    · exact ⟨blocks, hbooks⟩
    · exact ⟨rest, hbooks⟩
  obtain ⟨_, hsame⟩ := hbooks
  have hbuffer : a'.buffer = a.buffer := congrArg PageBooks.buffer hsame
  have hout : a'.outstanding = a.outstanding := congrArg PageBooks.outstanding hsame
  have hactive : a'.numActiveAllocations = a.numActiveAllocations :=
    congrArg PageBooks.numActiveAllocations hsame
  have htotal : a'.totalAllocatedSize = a.totalAllocatedSize :=
    congrArg PageBooks.totalAllocatedSize hsame
  rcases hspec with ⟨hnone, blocks, hperm, hbooks⟩ | ⟨pages, rest, hsome, hlength, hfree, hbooks⟩
  · obtain rfl : answer = none := hnone
    have hblocks : a'.freeBlocks = blocks := congrArg PageBooks.freeBlocks hbooks
    simp only [batchedAllocate, hloop]
    exact ⟨hbuffer, by rw [hblocks]; exact hperm, hout.trans (append_nil _).symm,
      hactive.trans (Int.add_zero _).symm, by rw [htotal, hactive]; exact id, hpins,
      fun _ h => absurd h not_mem_nil, hrefs⟩
  · obtain rfl : answer = some pages := hsome
    have hrest : a'.freeBlocks = rest := congrArg PageBooks.freeBlocks hbooks
    simp only [batchedAllocate, hloop]
    exact ⟨hbuffer, by rw [hrest]; exact .of_eq hfree.symm, by rw [hout]; rfl,
      by rw [hactive, Option.getD_some, hlength], fun _ => by rw [hbuffer], hpins, hones pages rfl, hrefs⟩

end PagedTensorMemoryAllocator

namespace PagedRun

variable {Λ : Type}

def Disciplined (s : PagedRun Λ) : PagedEvent Λ → Prop
  | .refCountUp page | .pin page => page ∈ s.refsHeld ++ s.pinsHeld
  | .refCountDown page => page ∈ s.refsHeld
  | .unpin page => page ∈ s.pinsHeld
  | _ => True

-- a holder acts on an object only while a reference to it is held or a pin of it is still counted
def StillHeld (s : PagedRun Λ) : PagedEvent Λ → Prop
  | .refCountUp page | .pin page | .unpin page => page ∈ s.refsHeld ∨ 0 < s.allocator.pinCount page
  | _ => True

def Unforced (s : PagedRun Λ) : PagedEvent Λ → Prop
  | .forceUnpin => ∀ page ∈ s.timedOut, s.allocator.pinCount page ≤ 0
  | _ => True

instance (s : PagedRun Λ) (ev : PagedEvent Λ) : Decidable (s.StillHeld ev) :=
  match ev with
  | .refCountUp page | .pin page | .unpin page =>
      inferInstanceAs (Decidable (page ∈ s.refsHeld ∨ 0 < s.allocator.pinCount page))
  | .allocate _ | .batchedAllocate _ _ | .refCountDown _ | .advance _ | .checkTimeouts | .forceUnpin =>
      .isTrue trivial

instance (s : PagedRun Λ) (ev : PagedEvent Λ) : Decidable (s.Disciplined ev) :=
  match ev with
  | .refCountUp page | .pin page => inferInstanceAs (Decidable (page ∈ s.refsHeld ++ s.pinsHeld))
  | .refCountDown page => inferInstanceAs (Decidable (page ∈ s.refsHeld))
  | .unpin page => inferInstanceAs (Decidable (page ∈ s.pinsHeld))
  | .allocate _ | .batchedAllocate _ _ | .advance _ | .checkTimeouts | .forceUnpin => .isTrue trivial

def Counted (s : PagedRun Λ) : Prop := s.allocator.Counted s.refsHeld

def PinsCounted (s : PagedRun Λ) : Prop :=
  ∀ page, s.allocator.pinCount page = s.pinsHeld.count page

variable {s : PagedRun Λ}

theorem PinsCounted.stillHeld (h : PinsCounted s) (ev : PagedEvent Λ) (hev : s.Disciplined ev) :
    s.StillHeld ev := by
  have hpinned : ∀ page ∈ s.pinsHeld, 0 < s.allocator.pinCount page := fun page hmem => by
    rw [h page]
    exact Int.natCast_pos.mpr (count_pos_iff.mpr hmem)
  cases ev with
  | refCountUp page => exact (mem_append.mp hev).imp_right (hpinned page)
  | pin page => exact (mem_append.mp hev).imp_right (hpinned page)
  | unpin page => exact .inr (hpinned page hev)
  | _ => trivial

variable [DecidableEq Λ]

theorem Counted.unpin (h : Counted s) {page : ℕ}
    (hheld : page ∈ s.refsHeld ∨ 0 < s.allocator.pinCount page) : Counted (s.unpin page) := by
  have hout := h.out page hheld
  have hrefs : s.allocator.refCount page = s.refsHeld.count page := h.refs page hout
  refine h.change hout (s.allocator.books_unpin page) (fun page' hne => ?_) ?_ fun hlast => ?_
  · exact ⟨s.allocator.refCount_unpin page page',
      (s.allocator.pinCount_unpin page page').trans (if_neg hne), rfl⟩
  · exact (s.allocator.refCount_unpin page page).trans hrefs
  · obtain ⟨hpin, href⟩ := hlast
    refine ⟨count_eq_zero.mp ?_, ?_⟩
    · change s.refsHeld.count page = 0
      omega
    · rw [PagedRun.unpin, pinCount_unpin, if_pos rfl]
      omega

theorem counted_exec (ev : PagedEvent Λ) (h : Counted s) (hev : s.Disciplined ev)
    (hheld : s.StillHeld ev) : Counted (s.exec ev) := by
  cases ev with
  | allocate shapes => exact h.take (s.allocator.takes_allocate shapes)
  | batchedAllocate shapes batchSize => exact h.take (s.allocator.takes_batchedAllocate shapes batchSize)
  | refCountUp page =>
    have hout := h.out page hheld
    refine h.change (P := False) hout (if_neg id).symm
      (fun page' hne => ⟨?_, ?_, ?_⟩) ?_ False.elim
    · exact (s.allocator.refCount_setRefCount page _ _).trans (if_neg hne)
    · exact s.allocator.pinCount_setRefCount page page' _
    · change (s.refsHeld ++ [page]).count page' = _
      rw [count_append, count_eq_zero_of_not_mem (mt mem_singleton.mp hne), Nat.add_zero]
    · change _ = (((s.refsHeld ++ [page]).count page : ℕ) : ℤ)
      rw [count_append, count_singleton_self]
      push_cast
      rw [← h.refs page hout]
      exact (s.allocator.refCount_setRefCount page _ _).trans (if_pos rfl)
  | refCountDown page =>
    have hmem : page ∈ s.refsHeld := hev
    have hout := h.out page (.inl hmem)
    have hrefs : s.allocator.refCount page = s.refsHeld.count page := h.refs page hout
    have hpos := count_pos_iff.mpr hmem
    have herase : (s.refsHeld.erase page).count page = s.refsHeld.count page - 1 := count_erase_self
    refine h.change hout (s.allocator.books_refCountDown page)
      (fun page' hne => ⟨?_, ?_, count_erase_of_ne hne⟩) ?_ fun hlast => ?_
    · exact (s.allocator.refCount_refCountDown page page').trans (if_neg hne)
    · exact s.allocator.pinCount_refCountDown page page'
    · rw [exec, refCount_refCountDown, if_pos rfl, herase]
      omega
    · obtain ⟨href, hpin⟩ := hlast
      refine ⟨count_eq_zero.mp (herase.trans ?_),
        ((s.allocator.pinCount_refCountDown page page).trans hpin).le⟩
      omega
  | pin page =>
    have hout := h.out page hheld
    refine h.change (P := False) hout (if_neg id).symm
      (fun page' hne => ⟨?_, ?_, rfl⟩) ?_ False.elim
    · exact s.allocator.refCount_setPinCount page page' _
    · exact (s.allocator.pinCount_setPinCount page page' _).trans (if_neg hne)
    · exact (s.allocator.refCount_setPinCount page page _).trans (h.refs page hout)
  | unpin page => exact h.unpin hheld
  | advance elapsed => exact h
  | checkTimeouts =>
    simp only [exec]
    split_ifs
    · exact h
    · exact h
  | forceUnpin =>
    cases htimed : s.timedOut with
    | nil =>
      simp only [exec, forceUnpin, htimed]
      exact h
    | cons page rest =>
      simp only [exec, forceUnpin, htimed]
      split_ifs with hpinned
      · exact h.unpin (.inr hpinned)
      · exact h

theorem pinsCounted_exec (ev : PagedEvent Λ) (h : PinsCounted s) (hev : s.Disciplined ev)
    (hunforced : s.Unforced ev) : PinsCounted (s.exec ev) := by
  cases ev with
  | allocate shapes => exact fun page => ((s.allocator.takes_allocate shapes).pins page).trans (h page)
  | batchedAllocate shapes batchSize =>
    exact fun page => ((s.allocator.takes_batchedAllocate shapes batchSize).pins page).trans (h page)
  | refCountUp page =>
    exact fun page' => (s.allocator.pinCount_setRefCount page page' _).trans (h page')
  | refCountDown page =>
    exact fun page' => (s.allocator.pinCount_refCountDown page page').trans (h page')
  | pin page =>
    intro page'
    refine (s.allocator.pinCount_setPinCount page page' _).trans ?_
    change _ = (((s.pinsHeld ++ [page]).count page' : ℕ) : ℤ)
    rw [count_append]
    split_ifs with heq
    · rw [heq, h page, count_singleton_self]
      push_cast
      rfl
    · rw [h page', count_eq_zero_of_not_mem (mt mem_singleton.mp heq), Nat.add_zero]
  | unpin page =>
    intro page'
    have hpos := count_pos_iff.mpr hev
    refine (s.allocator.pinCount_unpin page page').trans ?_
    have hpins := h page
    simp only [exec]
    split_ifs with heq
    · rw [heq, count_erase_self]
      omega
    · rw [count_erase_of_ne heq, h page']
  | advance elapsed => exact h
  | checkTimeouts =>
    simp only [exec]
    split_ifs
    · exact h
    · exact h
  | forceUnpin =>
    cases htimed : s.timedOut with
    | nil =>
      simp only [exec, forceUnpin, htimed]
      exact h
    | cons page rest =>
      have hdone := hunforced page (by rw [htimed]; exact mem_cons_self)
      simp only [exec, forceUnpin, htimed, if_neg (not_lt.mpr hdone)]
      exact h

theorem stillHeld_of_unforced (buffer : PagedBuffer Λ) (pinTimeout now : ℕ)
    (events : List (PagedEvent Λ))
    (hrun : Execution.Along exec Disciplined (start buffer pinTimeout now) events)
    (hunforced : Execution.Along exec Unforced (start buffer pinTimeout now) events) :
    Execution.Along exec StillHeld (start buffer pinTimeout now) events :=
  Execution.along_of_invariant (I := PinsCounted)
    (fun _ ev h hev => pinsCounted_exec ev h hev.1 hev.2) (fun _ ev h hev => h.stillHeld ev hev.1)
    (fun _ => rfl) (hrun.and hunforced)

end PagedRun

end LMCache
