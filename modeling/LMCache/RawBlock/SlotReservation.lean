import LMCache.RawBlock.Backend

namespace LMCache.RawBlock

def slotOffset (config : RawBlockConfig) (slot : ℕ) : ℕ := slot * config.slotBytes

namespace RawBlockState

variable {K : Type} {config : RawBlockConfig} {s : RawBlockState K config} {answer : SizeAnswer}

def resolved (s : RawBlockState K config) (capacity max : ℕ) : RawBlockState K config :=
  { s with capacityBytes := capacity, maxSlots := max }

def withLru (s : RawBlockState K config) (lru : List K) : RawBlockState K config :=
  { s with lru := lru }

inductive Taken (s : RawBlockState K config) : ℕ → RawBlockState K config → Prop where
  | reuse (slot : ℕ) (rest : List ℕ) (h : s.freeSlots = rest ++ [slot]) :
      Taken s (slotOffset config slot) { s with freeSlots := rest }
  | extend : Taken s (slotOffset config s.nextSlot) { s with nextSlot := s.nextSlot + 1 }

inductive Allocated (answer : SizeAnswer) (s : RawBlockState K config) :
    RawBlockState K config × SlotResult → Prop where
  | slot (capacity max offset : ℕ) (s' : RawBlockState K config)
      (h : Taken (s.resolved capacity max) offset s') : Allocated answer s (s', .slot offset)
  | runtimeError (capacity max : ℕ)
      (h : capacity = 0 → answer = .osError → s.capacityBytes = 0) :
      Allocated answer s (s.resolved capacity max, .runtimeError)
  | osError (h : s.capacityBytes = 0) (ha : answer = .osError) : Allocated answer s (s, .osError)

theorem allocated_takeSlot (s : RawBlockState K config) (capacity max : ℕ)
    (h : capacity = 0 → answer = .osError → s.capacityBytes = 0) :
    Allocated answer s (s.resolved capacity max).takeSlot := by
  rw [takeSlot]
  split
  · exact .runtimeError capacity max h
  · cases hlast : (s.resolved capacity max).freeSlots.getLast? with
    | some slot =>
      obtain ⟨rest, hrest⟩ := List.getLast?_eq_some_iff.mp hlast
      have htaken := Taken.reuse (s := s.resolved capacity max) slot rest hrest
      refine .slot capacity max _ _ ?_
      rw [hrest, List.dropLast_concat]
      exact htaken
    | none =>
      dsimp only
      split
      · exact .slot capacity max _ _ .extend
      · exact .runtimeError capacity max h

theorem allocated_allocateSlot (s : RawBlockState K config) (answer : SizeAnswer) :
    Allocated answer s (s.allocateSlot answer) := by
  have hmax : ∀ capacity, (capacity = 0 → answer = .osError → s.capacityBytes = 0) →
      Allocated answer s ((s.resolved capacity s.maxSlots).resolveMaxSlots.takeSlot) := by
    intro capacity hcapacity
    rw [resolveMaxSlots]
    split
    · exact allocated_takeSlot s capacity _ hcapacity
    · exact allocated_takeSlot s capacity _ hcapacity
  by_cases hzero : s.capacityBytes = 0
  · cases answer with
    | size bytes =>
      simp only [allocateSlot, resolveCapacity, if_pos hzero]
      exact hmax bytes fun _ h => nomatch h
    | runtimeError =>
      simp only [allocateSlot, resolveCapacity, if_pos hzero]
      exact .runtimeError s.capacityBytes s.maxSlots fun h _ => h
    | osError =>
      simp only [allocateSlot, resolveCapacity, if_pos hzero]
      exact .osError hzero rfl
  · simp only [allocateSlot, resolveCapacity, if_neg hzero]
    exact hmax s.capacityBytes fun h _ => h

variable [DecidableEq K]

inductive Scanned (s : RawBlockState K config) : RawBlockState K config × Bool → Prop where
  | evicted (lru : List K) (victim : K) (entry : BlockEntry) (hpinned : victim ∉ s.pinned)
      (hinflight : s.inflight.get? victim = none) (hget : s.index.get? victim = some entry) :
      Scanned s ((s.withLru lru).evict victim entry, true)
  | exhausted (lru : List K) : Scanned s (s.withLru lru, false)

theorem scanned_evictScan (lru keys : List K) : Scanned s ((s.withLru lru).evictScan keys) := by
  induction keys generalizing lru with
  | nil => exact .exhausted lru
  | cons victim rest ih =>
    rw [evictScan]
    split
    · exact ih lru
    · next hfree =>
      rw [not_or] at hfree
      split
      · next entry hget =>
        refine .evicted lru victim entry hfree.1 ?_ hget
        rw [Dict.get?_eq_none_iff, ← Dict.contains_iff]
        exact hfree.2
      · exact ih _

theorem scanned_evictOne (s : RawBlockState K config) : Scanned s s.evictOne :=
  scanned_evictScan s.lru s.lru

theorem reserveSlot_keeps {P : RawBlockState K config → Prop}
    (hresolved : ∀ s capacity max, P s → P (s.resolved capacity max))
    (hlru : ∀ s lru, P s → P (s.withLru lru))
    (hevict : ∀ s victim entry, P s → victim ∉ s.pinned → s.inflight.get? victim = none →
      s.index.get? victim = some entry → P (s.evict victim entry))
    (answer : SizeAnswer) (fuel : ℕ) (h : P s) :
    (∃ offset s' s₀, reserveSlot answer fuel s = (s', .slot offset) ∧ P s₀ ∧ Taken s₀ offset s') ∨
    ∃ s', P s' ∧ (reserveSlot answer fuel s = (s', .runtimeError) ∨
      reserveSlot answer fuel s = (s', .osError) ∧ s.capacityBytes = 0 ∧ answer = .osError) := by
  induction fuel generalizing s with
  | zero => exact .inr ⟨s, h, .inl rfl⟩
  | succ fuel ih =>
    have hallocated := allocated_allocateSlot s answer
    rw [reserveSlot]
    generalize s.allocateSlot answer = allocated at hallocated
    cases hallocated with
    | slot capacity max offset s' htaken =>
      exact .inl ⟨offset, s', _, rfl, hresolved s capacity max h, htaken⟩
    | osError hzero hanswer => exact .inr ⟨s, h, .inr ⟨rfl, hzero, hanswer⟩⟩
    | runtimeError capacity max hcapacity =>
      have hscanned := scanned_evictOne (s.resolved capacity max)
      dsimp only
      generalize (s.resolved capacity max).evictOne = scanned at hscanned
      cases hscanned with
      | exhausted lru => exact .inr ⟨_, hlru _ lru (hresolved s capacity max h), .inl rfl⟩
      | evicted lru victim entry hpinned hinflight hget =>
        have hkept := hevict _ victim entry (hlru _ lru (hresolved s capacity max h)) hpinned
          hinflight hget
        rcases ih hkept with hslot | ⟨s', hs', herror | ⟨herror, hzero, hanswer⟩⟩
        · exact .inl hslot
        · exact .inr ⟨s', hs', .inl herror⟩
        · exact .inr ⟨s', hs', .inr ⟨herror, hcapacity hzero hanswer, hanswer⟩⟩

end RawBlockState

end LMCache.RawBlock
