import LMCache.Foundations.Execution
import LMCache.Foundations.Turns
import LMCache.StorageOps.TTLLock

namespace LMCache

open Turns List Execution

inductive TTLCall where
  | lockLoadExpiration (currentTime : ℕ)
  | lockLoadCounter (currentTime oldExpiration : ℕ)
  | casExpiration (currentTime oldExpiration : ℕ)
  | storeCounter (currentTime : ℕ)
  | casCounter (currentTime oldCounter : ℕ)
  | storeExpiration (currentTime : ℕ)
  | lockReturned (currentTime : ℕ)
  | unlockLoad
  | unlockCas (oldCounter : ℕ)
  | unlockReturned
deriving DecidableEq

structure TTLRun where
  lock : TTLLock
  now : ℕ
  calls : List TTLCall
deriving DecidableEq

inductive TTLEvent where
  | lock
  | unlock
  | step (call : ℕ)
  | tick (elapsed : ℕ)

namespace TTLCall

def step (l : TTLLock) : TTLCall → TTLLock × TTLCall
  | .lockLoadExpiration currentTime => (l, .lockLoadCounter currentTime l.expirationMs)
  | .lockLoadCounter currentTime oldExpiration =>
      if oldExpiration ≤ currentTime then (l, .casExpiration currentTime oldExpiration)
      else (l, .casCounter currentTime l.counter)
  | .casExpiration currentTime oldExpiration =>
      if l.expirationMs = oldExpiration then
        ({ l with expirationMs := currentTime + l.ttlMs }, .storeCounter currentTime)
      else (l, .lockLoadExpiration currentTime)
  | .storeCounter currentTime => ({ l with counter := 1 }, .lockReturned currentTime)
  | .casCounter currentTime oldCounter =>
      if l.counter = oldCounter then
        ({ l with counter := oldCounter + 1 }, .storeExpiration currentTime)
      else (l, .lockLoadExpiration currentTime)
  | .storeExpiration currentTime =>
      ({ l with expirationMs := currentTime + l.ttlMs }, .lockReturned currentTime)
  | .lockReturned currentTime => (l, .lockReturned currentTime)
  | .unlockLoad => if l.counter = 0 then (l, .unlockReturned) else (l, .unlockCas l.counter)
  | .unlockCas oldCounter =>
      if l.counter = oldCounter then ({ l with counter := oldCounter - 1 }, .unlockReturned)
      else (l, .unlockLoad)
  | .unlockReturned => (l, .unlockReturned)

def startedAt : TTLCall → Option ℕ
  | .lockLoadExpiration t | .lockLoadCounter t _ | .casExpiration t _ | .storeCounter t
  | .casCounter t _ | .storeExpiration t | .lockReturned t => some t
  | .unlockLoad | .unlockCas _ | .unlockReturned => none

def counted : TTLCall → ℤ
  | .storeExpiration _ | .lockReturned _ => 1
  | .unlockReturned => -1
  | _ => 0

def holding : TTLCall → ℤ
  | .lockReturned _ => 1
  | .unlockLoad | .unlockCas _ | .unlockReturned => -1
  | _ => 0

def isLockReturned : TTLCall → Bool
  | .lockReturned _ => true
  | _ => false

def isUnlockReturned : TTLCall → Bool
  | .unlockReturned => true
  | _ => false

def resets : TTLCall → Bool
  | .storeCounter _ => true
  | _ => false

def Returned (c : TTLCall) : Prop := c.isLockReturned = true ∨ c.isUnlockReturned = true

instance (c : TTLCall) : Decidable c.Returned := inferInstanceAs (Decidable (_ ∨ _))

def Looking : TTLCall → Prop
  | .lockLoadExpiration _ | .casExpiration _ _ => True
  | .lockLoadCounter currentTime oldExpiration => oldExpiration ≤ currentTime
  | _ => False

end TTLCall

namespace TTLRun

def start (l : TTLLock) (now : ℕ) : TTLRun := ⟨l, now, []⟩

variable (s : TTLRun)

def exec : TTLEvent → TTLRun
  | .lock => { s with calls := s.calls ++ [.lockLoadExpiration s.now] }
  | .unlock => { s with calls := s.calls ++ [.unlockLoad] }
  | .step call =>
      match s.calls[call]? with
      | none => s
      | some c =>
          let (l, c) := c.step s.lock
          { s with lock := l, calls := s.calls.set call c }
  | .tick elapsed => { s with now := s.now + elapsed }

def starts : List ℕ := s.calls.filterMap TTLCall.startedAt

def balance : ℤ := tally TTLCall.counted s.calls

def holders : ℤ := tally TTLCall.holding s.calls

def locksReturned : ℕ := s.calls.countP TTLCall.isLockReturned

def unlocksReturned : ℕ := s.calls.countP TTLCall.isUnlockReturned

def Allowed : TTLEvent → Prop
  | .lock => s.now < s.now + s.lock.ttlMs
  | .unlock => 0 < s.holders
  | .step _ => True
  | .tick elapsed => ∀ t ∈ s.starts, s.now + elapsed < t + s.lock.ttlMs

def ResetsAlone : TTLEvent → Prop
  | .step call => ∀ c ∈ s.calls[call]?, c.resets = true → s.balance = 0
  | .lock | .unlock | .tick _ => True

instance (s : TTLRun) (event : TTLEvent) : Decidable (s.Allowed event) :=
  match event with
  | .lock => inferInstanceAs (Decidable (_ < _))
  | .unlock => inferInstanceAs (Decidable (_ < _))
  | .step _ => .isTrue trivial
  | .tick elapsed => inferInstanceAs (Decidable (∀ t ∈ s.starts, s.now + elapsed < t + s.lock.ttlMs))

instance (s : TTLRun) (event : TTLEvent) : Decidable (s.ResetsAlone event) :=
  match event with
  | .step call => inferInstanceAs (Decidable (∀ c ∈ s.calls[call]?, c.resets = true → s.balance = 0))
  | .lock | .unlock | .tick _ => .isTrue trivial

structure Counts (leftover : ℕ) (s : TTLRun) : Prop where
  counted : (∀ c ∈ s.calls, c.Returned) → 0 < s.locksReturned ∨ leftover = 0 →
    (s.lock.counter : ℤ) = s.locksReturned - s.unlocksReturned
  held : 0 < s.holders → s.lock.isLocked s.now = true

def Renewed : Prop := ∃ t ∈ s.starts, s.lock.expirationMs = t + s.lock.ttlMs

structure Untouched (s : TTLRun) : Prop where
  now : s.lock.expirationMs ≤ s.now
  starts : ∀ t ∈ s.starts, s.lock.expirationMs ≤ t
  looking : ∀ c ∈ s.calls, c.Looking

def Phase (base : ℕ) (s : TTLRun) : Prop :=
  base = 0 ∨ (∃ t, .storeCounter t ∈ s.calls) ∨ s.Untouched

structure Inv (leftover : ℕ) (s : TTLRun) : Prop where
  clock : ∀ t ∈ s.starts, t ≤ s.now ∧ s.now < t + s.lock.ttlMs
  holders : 0 ≤ s.holders
  renewed : ∀ t, .storeCounter t ∈ s.calls ∨ .lockReturned t ∈ s.calls → s.Renewed
  counter : ∃ base ≤ leftover, (s.lock.counter : ℤ) = base + s.balance ∧ s.Phase base

end TTLRun

namespace TTLCall

inductive Effect (l l' : TTLLock) (c c' : TTLCall) : Prop where
  | quiet (lock : l' = l) (started : c'.startedAt = c.startedAt) (counted : c'.counted = c.counted)
      (holding : c'.holding = c.holding) (running : ∀ t, c ≠ .storeCounter t)
      (same : ∀ t, c' = .storeCounter t ∨ c' = .lockReturned t → c' = c)
      (looks : (∀ t, c.startedAt = some t → l.expirationMs ≤ t) → c.Looking → c'.Looking)
  | expire (t : ℕ) (lock : l' = { l with expirationMs := t + l.ttlMs }) (started : c.startedAt = some t)
      (call : c' = .storeCounter t) (counted : c.counted = 0) (holding : c.holding = 0)
  | reset (t : ℕ) (lock : l' = { l with counter := 1 }) (call : c = .storeCounter t)
      (call' : c' = .lockReturned t)
  | count (t : ℕ) (lock : l' = { l with counter := l.counter + 1 }) (call' : c' = .storeExpiration t)
      (call : c = .casCounter t l.counter)
  | renew (t : ℕ) (lock : l' = { l with expirationMs := t + l.ttlMs }) (call : c = .storeExpiration t)
      (call' : c' = .lockReturned t)
  | uncount (lock : l' = { l with counter := l.counter - 1 }) (call : c = .unlockCas l.counter)
      (call' : c' = .unlockReturned)
  | giveUp (lock : l' = l) (empty : l.counter = 0) (call : c = .unlockLoad)
      (call' : c' = .unlockReturned)

theorem effect_step (l : TTLLock) (c : TTLCall) : Effect l (c.step l).1 c (c.step l).2 := by
  cases c with
  | lockLoadExpiration t =>
    refine .quiet rfl rfl rfl rfl (by simp) (by simp [step]) fun h _ => ?_
    exact h t rfl
  | lockLoadCounter t oldExpiration =>
    rw [step]
    split_ifs with hexpired
    · exact .quiet rfl rfl rfl rfl (by simp) (by simp) fun _ _ => trivial
    · refine .quiet rfl rfl rfl rfl (by simp) (by simp) fun _ h => ?_
      exact absurd h hexpired
  | casExpiration t oldExpiration =>
    rw [step]
    split_ifs
    · exact .expire t rfl rfl rfl rfl rfl
    · exact .quiet rfl rfl rfl rfl (by simp) (by simp) fun _ _ => trivial
  | storeCounter t => exact .reset t rfl rfl rfl
  | casCounter t oldCounter =>
    rw [step]
    split_ifs with hsame
    · subst hsame
      exact .count t rfl rfl rfl
    · exact .quiet rfl rfl rfl rfl (by simp) (by simp) fun _ _ => trivial
  | storeExpiration t => exact .renew t rfl rfl rfl
  | lockReturned t | unlockReturned =>
    exact .quiet rfl rfl rfl rfl (by simp) (by simp [step]) fun _ h => h
  | unlockLoad =>
    rw [step]
    split_ifs with hempty
    · exact .giveUp rfl hempty rfl rfl
    · exact .quiet rfl rfl rfl rfl (by simp) (by simp) fun _ h => h
  | unlockCas oldCounter =>
    rw [step]
    split_ifs with hsame
    · subst hsame
      exact .uncount rfl rfl rfl
    · exact .quiet rfl rfl rfl rfl (by simp) (by simp) fun _ h => h

theorem holding_le_counted (c : TTLCall) : c.holding ≤ c.counted := by
  cases c <;> simp [holding, counted]

variable {l l' : TTLLock} {c c' : TTLCall}

theorem Effect.ttlMs_eq (h : Effect l l' c c') : l'.ttlMs = l.ttlMs := by
  cases h with
  | quiet lock | expire _ lock | reset _ lock | count _ lock | renew _ lock | uncount lock
  | giveUp lock => rw [lock]

theorem Effect.startedAt_eq (h : Effect l l' c c') : c'.startedAt = c.startedAt := by
  cases h with
  | quiet _ started => exact started
  | expire t _ started call => rw [started, call, startedAt]
  | reset t _ call call' | renew t _ call call' | uncount _ call call' | giveUp _ _ call call'
  | count t _ call' call => rw [call, call', startedAt, startedAt]

theorem Effect.holding_le (h : Effect l l' c c') : c.holding ≤ c'.holding := by
  cases h with
  | quiet _ _ _ holding => exact holding.ge
  | expire t _ _ call _ holding =>
    rw [holding, call]
    exact le_rfl
  | reset t _ call call' | renew t _ call call' | uncount _ call call' | giveUp _ _ call call'
  | count t _ call' call =>
    rw [call, call']
    simp [TTLCall.holding]

end TTLCall

namespace TTLRun

variable {leftover : ℕ} {s : TTLRun} {i : ℕ} {c c' : TTLCall} {l' : TTLLock}

theorem mem_starts {t : ℕ} : t ∈ s.starts ↔ ∃ c ∈ s.calls, c.startedAt = some t := mem_filterMap

theorem Inv.counter_pos (h : Inv leftover s) (hmem : c ∈ s.calls) (hlt : c.holding < c.counted) :
    0 < s.lock.counter := by
  obtain ⟨base, -, hcounter, -⟩ := h.counter
  have hmore : s.holders < s.balance := tally_lt TTLCall.holding_le_counted hmem hlt
  have hholders := h.holders
  omega

def turned (s : TTLRun) (i : ℕ) (l' : TTLLock) (c' : TTLCall) : TTLRun :=
  { s with lock := l', calls := s.calls.set i c' }

theorem starts_turned (hcall : s.calls[i]? = some c) (heffect : TTLCall.Effect s.lock l' c c') :
    (s.turned i l' c').starts = s.starts := filterMap_set hcall heffect.startedAt_eq

theorem balance_turned (hcall : s.calls[i]? = some c) (l' : TTLLock) (c' : TTLCall) :
    (s.turned i l' c').balance = s.balance - c.counted + c'.counted := tally_set _ hcall c'

theorem mem_calls_turned {d : TTLCall} (h : d ∈ (s.turned i l' c').calls) : d ∈ s.calls ∨ d = c' :=
  mem_or_eq_of_mem_set h

theorem Renewed.turned (h : s.Renewed) (hcall : s.calls[i]? = some c)
    (heffect : TTLCall.Effect s.lock l' c c') (hsame : l'.expirationMs = s.lock.expirationMs) :
    (s.turned i l' c').Renewed := by
  obtain ⟨t, ht, heq⟩ := h
  refine ⟨t, by rwa [starts_turned hcall heffect], ?_⟩
  change l'.expirationMs = t + l'.ttlMs
  rw [hsame, heffect.ttlMs_eq, heq]

theorem renewed_of_set (hcall : s.calls[i]? = some c) (heffect : TTLCall.Effect s.lock l' c c') {t : ℕ}
    (hstarted : c.startedAt = some t) (hnew : l'.expirationMs = t + s.lock.ttlMs) :
    (s.turned i l' c').Renewed := by
  refine ⟨t, ?_, ?_⟩
  · rw [starts_turned hcall heffect, mem_starts]
    exact ⟨c, mem_of_getElem? hcall, hstarted⟩
  · change l'.expirationMs = t + l'.ttlMs
    rw [hnew, heffect.ttlMs_eq]

theorem Inv.renewed_turned (h : Inv leftover s) (hcall : s.calls[i]? = some c)
    (heffect : TTLCall.Effect s.lock l' c c') {t : ℕ}
    (hmem : .storeCounter t ∈ (s.turned i l' c').calls ∨ .lockReturned t ∈ (s.turned i l' c').calls) :
    (s.turned i l' c').Renewed := by
  have hc : c ∈ s.calls := mem_of_getElem? hcall
  have hold : (c' = .storeCounter t ∨ c' = .lockReturned t → s.Renewed) → s.Renewed := by
    intro hnew
    rcases hmem with hmem | hmem
    · rcases mem_calls_turned hmem with hd | hd
      · exact h.renewed t (.inl hd)
      · exact hnew (.inl hd.symm)
    · rcases mem_calls_turned hmem with hd | hd
      · exact h.renewed t (.inr hd)
      · exact hnew (.inr hd.symm)
  have hturn := heffect
  cases heffect with
  | quiet lock started counted holding running same looks =>
    refine (hold fun hnew => ?_).turned hcall hturn (by rw [lock])
    rw [same t hnew] at hnew
    exact hnew.elim (fun heq => absurd heq (running t)) fun heq => h.renewed t (.inr (heq ▸ hc))
  | expire t' lock started call counted holding =>
    exact renewed_of_set hcall hturn started (by rw [lock])
  | reset t' lock call call' =>
    exact (hold fun _ => h.renewed t' (.inl (call ▸ hc))).turned hcall hturn (by rw [lock])
  | renew t' lock call call' =>
    exact renewed_of_set hcall hturn (by rw [call]; rfl) (by rw [lock])
  | count t' lock call' call | uncount lock call call' | giveUp lock empty call call' =>
    refine (hold fun hnew => ?_).turned hcall hturn (by rw [lock])
    simp [call'] at hnew

theorem Untouched.turned (h : s.Untouched) (hcall : s.calls[i]? = some c)
    (heffect : TTLCall.Effect s.lock l' c c') (hlock : l' = s.lock) (hlooking : c'.Looking) :
    (s.turned i l' c').Untouched := by
  refine ⟨?_, ?_, fun d hd => ?_⟩
  · change l'.expirationMs ≤ s.now
    rw [hlock]
    exact h.now
  · rw [starts_turned hcall heffect]
    change ∀ t ∈ s.starts, l'.expirationMs ≤ t
    rw [hlock]
    exact h.starts
  · rcases mem_calls_turned hd with hd | rfl
    · exact h.looking d hd
    · exact hlooking

theorem Phase.turned {base : ℕ} (h : s.Phase base) (hcall : s.calls[i]? = some c)
    (hrunning : ∀ t, c ≠ .storeCounter t) (huntouched : s.Untouched → (s.turned i l' c').Untouched) :
    (s.turned i l' c').Phase base := by
  rcases h with hbase | ⟨t, ht⟩ | hun
  · exact .inl hbase
  · exact .inr (.inl ⟨t, mem_set_of_ne hcall c' ht (hrunning t).symm⟩)
  · exact .inr (.inr (huntouched hun))

theorem Phase.turned_of_not_looking {base : ℕ} (h : s.Phase base) (hcall : s.calls[i]? = some c)
    (hrunning : ∀ t, c ≠ .storeCounter t) (hnot : ¬ c.Looking) :
    (s.turned i l' c').Phase base :=
  h.turned hcall hrunning fun hun => absurd (hun.looking c (mem_of_getElem? hcall)) hnot

theorem Inv.counter_turned (h : Inv leftover s) (hcall : s.calls[i]? = some c)
    (heffect : TTLCall.Effect s.lock l' c c') (halone : ∀ t, c = .storeCounter t → s.balance = 0) :
    ∃ base ≤ leftover, (l'.counter : ℤ) = base + (s.turned i l' c').balance ∧
      (s.turned i l' c').Phase base := by
  have hc : c ∈ s.calls := mem_of_getElem? hcall
  obtain ⟨base, hbase, hcounter, hphase⟩ := h.counter
  have hturn := heffect
  rw [balance_turned hcall]
  cases heffect with
  | quiet lock started counted holding running same looks =>
    refine ⟨base, hbase, ?_, hphase.turned hcall running fun hun => ?_⟩
    · rw [lock, counted]
      omega
    · refine hun.turned hcall hturn lock (looks (fun t ht => ?_) (hun.looking c hc))
      exact hun.starts t (mem_starts.mpr ⟨c, hc, ht⟩)
  | expire t lock started call counted holding =>
    refine ⟨base, hbase, ?_, .inr (.inl ⟨t, ?_⟩)⟩
    · rw [lock, call, counted]
      simp only [TTLCall.counted]
      omega
    · rw [← call]
      exact mem_set_self hcall c'
  | reset t lock call call' =>
    refine ⟨0, Nat.zero_le _, ?_, .inl rfl⟩
    rw [lock, call, call', halone t call]
    rfl
  | count t lock call' call =>
    refine ⟨base, hbase, ?_, hphase.turned_of_not_looking hcall (by simp [call])
      (by simp [call, TTLCall.Looking])⟩
    rw [lock, call, call']
    simp only [TTLCall.counted]
    push_cast
    omega
  | renew t lock call call' =>
    refine ⟨base, hbase, ?_, hphase.turned_of_not_looking hcall (by simp [call])
      (by simp [call, TTLCall.Looking])⟩
    rw [lock, call, call']
    simp only [TTLCall.counted]
    omega
  | uncount lock call call' =>
    have hpos := h.counter_pos hc (by simp [call, TTLCall.holding, TTLCall.counted])
    refine ⟨base, hbase, ?_, hphase.turned_of_not_looking hcall (by simp [call])
      (by simp [call, TTLCall.Looking])⟩
    rw [lock, call, call']
    simp only [TTLCall.counted]
    omega
  | giveUp lock empty call call' =>
    have hpos := h.counter_pos hc (by simp [call, TTLCall.holding, TTLCall.counted])
    omega

theorem Inv.turned (h : Inv leftover s) (hcall : s.calls[i]? = some c)
    (heffect : TTLCall.Effect s.lock l' c c') (halone : ∀ t, c = .storeCounter t → s.balance = 0) :
    Inv leftover (s.turned i l' c') := by
  refine ⟨?_, ?_, fun t hmem => h.renewed_turned hcall heffect hmem,
    h.counter_turned hcall heffect halone⟩
  · rw [starts_turned hcall heffect]
    change ∀ t ∈ s.starts, t ≤ s.now ∧ s.now < t + l'.ttlMs
    rw [heffect.ttlMs_eq]
    exact h.clock
  · have hholders : (s.turned i l' c').holders = s.holders - c.holding + c'.holding :=
      tally_set _ hcall c'
    have hle := heffect.holding_le
    have hold := h.holders
    omega

theorem Inv.lock (h : Inv leftover s) (hallowed : s.Allowed .lock) : Inv leftover (s.exec .lock) := by
  have hstarts : (s.exec .lock).starts = s.starts ++ [s.now] := filterMap_append
  have hholders : (s.exec .lock).holders = s.holders + 0 := tally_snoc _ _ _
  have hbalance : (s.exec .lock).balance = s.balance + 0 := tally_snoc _ _ _
  refine ⟨?_, ?_, fun t hmem => ?_, ?_⟩
  · rw [hstarts]
    intro t ht
    rcases mem_append.mp ht with ht | ht
    · exact h.clock t ht
    · rw [mem_singleton.mp ht]
      exact ⟨le_rfl, hallowed⟩
  · rw [hholders, add_zero]
    exact h.holders
  · obtain ⟨t', ht', heq⟩ := h.renewed t (by simpa [exec] using hmem)
    exact ⟨t', by rw [hstarts]; exact mem_append_left _ ht', heq⟩
  · obtain ⟨base, hbase, hcounter, hphase⟩ := h.counter
    refine ⟨base, hbase, by rw [hbalance, add_zero]; exact hcounter, ?_⟩
    rcases hphase with hzero | ⟨t, ht⟩ | hun
    · exact .inl hzero
    · exact .inr (.inl ⟨t, mem_append_left _ ht⟩)
    · refine .inr (.inr ⟨hun.now, ?_, ?_⟩)
      · rw [hstarts]
        exact forall_mem_append.mpr ⟨hun.starts, forall_mem_singleton.mpr hun.now⟩
      · exact forall_mem_append.mpr ⟨hun.looking, forall_mem_singleton.mpr trivial⟩

theorem Inv.unlock (h : Inv leftover s) (hallowed : s.Allowed .unlock) :
    Inv leftover (s.exec .unlock) := by
  have hstarts : (s.exec .unlock).starts = s.starts := by
    change (s.calls ++ [TTLCall.unlockLoad]).filterMap TTLCall.startedAt = _
    rw [filterMap_append]
    exact append_nil _
  have hholders : (s.exec .unlock).holders = s.holders + -1 := tally_snoc _ _ _
  have hbalance : (s.exec .unlock).balance = s.balance + 0 := tally_snoc _ _ _
  refine ⟨?_, ?_, fun t hmem => ?_, ?_⟩
  · rw [hstarts]
    exact h.clock
  · have hpos : 0 < s.holders := hallowed
    omega
  · obtain ⟨t', ht', heq⟩ := h.renewed t (by simpa [exec] using hmem)
    exact ⟨t', by rwa [hstarts], heq⟩
  · obtain ⟨base, hbase, hcounter, hphase⟩ := h.counter
    refine ⟨base, hbase, by rw [hbalance, add_zero]; exact hcounter, ?_⟩
    rcases hphase with hzero | ⟨t, ht⟩ | hun
    · exact .inl hzero
    · exact .inr (.inl ⟨t, mem_append_left _ ht⟩)
    · -- nobody holds a lock that only looking calls have seen
      obtain ⟨c, hc, hpos⟩ := exists_pos_of_tally hallowed
      have hlooking := hun.looking c hc
      cases c <;> simp [TTLCall.holding, TTLCall.Looking] at hpos hlooking

theorem Inv.tick (h : Inv leftover s) {elapsed : ℕ} (hallowed : s.Allowed (.tick elapsed)) :
    Inv leftover (s.exec (.tick elapsed)) := by
  refine ⟨fun t ht => ?_, h.holders, h.renewed, ?_⟩
  · exact ⟨(h.clock t ht).1.trans (Nat.le_add_right _ _), hallowed t ht⟩
  · obtain ⟨base, hbase, hcounter, hphase⟩ := h.counter
    refine ⟨base, hbase, hcounter, hphase.imp_right (Or.imp_right fun hun => ?_)⟩
    exact ⟨hun.now.trans (Nat.le_add_right _ _), hun.starts, hun.looking⟩

theorem Inv.exec (h : Inv leftover s) {event : TTLEvent} (hallowed : s.Allowed event)
    (halone : s.ResetsAlone event) : Inv leftover (s.exec event) := by
  cases event with
  | lock => exact h.lock hallowed
  | unlock => exact h.unlock hallowed
  | tick elapsed => exact h.tick hallowed
  | step call =>
    rw [TTLRun.exec]
    cases hcall : s.calls[call]? with
    | none => exact h
    | some c =>
      refine h.turned hcall (TTLCall.effect_step s.lock c) fun t ht => halone c hcall ?_
      rw [ht, TTLCall.resets]

theorem inv_start {l : TTLLock} {now : ℕ} (h : l.counter = 0 ∨ l.expirationMs ≤ now) :
    Inv l.counter (start l now) := by
  refine ⟨fun t ht => (nomatch ht), le_rfl, fun t ht => ?_, l.counter, le_rfl, ?_, ?_⟩
  · exact ht.elim (fun ht => (nomatch ht)) fun ht => (nomatch ht)
  · exact (add_zero _).symm
  · refine h.imp_right fun hexpired => .inr ⟨hexpired, fun t ht => ?_, fun c hc => ?_⟩
    · exact nomatch ht
    · exact nomatch hc

theorem Inv.counts (h : Inv leftover s) : Counts leftover s := by
  obtain ⟨base, hbase, hcounter, hphase⟩ := h.counter
  constructor
  · intro hreturned hsome
    have hbalance : s.balance = s.locksReturned - s.unlocksReturned := by
      refine tally_eq_countP fun c hc => ?_
      have hret := hreturned c hc
      cases c <;> simp_all [TTLCall.Returned, TTLCall.isLockReturned, TTLCall.isUnlockReturned,
        TTLCall.counted]
    have hzero : base = 0 := by
      rcases hphase with hzero | ⟨t, ht⟩ | hun
      · exact hzero
      · exact absurd (hreturned _ ht) (by simp [TTLCall.Returned, TTLCall.isLockReturned,
          TTLCall.isUnlockReturned])
      · rcases hsome with hlocks | hleft
        · obtain ⟨c, hc, hlock⟩ := countP_pos_iff.mp hlocks
          have hlooking := hun.looking c hc
          cases c <;> simp [TTLCall.isLockReturned, TTLCall.Looking] at hlock hlooking
        · omega
    rw [hcounter, hzero, hbalance]
    simp
  · intro hheld
    obtain ⟨c, hc, hpos⟩ := exists_pos_of_tally hheld
    have hle : s.holders ≤ s.balance := tally_le TTLCall.holding_le_counted s.calls
    obtain ⟨t, ht, hexpiration⟩ : s.Renewed := by
      cases c with
      | lockReturned t => exact h.renewed t (.inr hc)
      | _ => exact absurd hpos (by simp [TTLCall.holding])
    have hclock := (h.clock t ht).2
    rw [TTLLock.isLocked, decide_eq_true_eq]
    omega

theorem counts_of_resetsAlone {l : TTLLock} {now : ℕ} {events : List TTLEvent}
    (hstart : l.counter = 0 ∨ l.expirationMs ≤ now)
    (hallowed : Execution.Along exec Allowed (start l now) events)
    (halone : Execution.Along exec ResetsAlone (start l now) events) :
    Counts l.counter (final exec (start l now) events) := by
  have hinv : Inv l.counter (final exec (start l now) events) :=
    invariant_final (fun s event h hq => h.exec hq.1 hq.2) (inv_start hstart)
      (hallowed.and halone)
  exact hinv.counts

def locksInTurn : List TTLEvent :=
  [.lock, .step 0, .step 0, .step 0, .step 0, .lock, .step 1, .step 1, .step 1, .step 1, .tick 5,
    .unlock, .step 2, .step 2]

theorem counts_of_resetsAlone_locksInTurn :
    (final exec (start (.init 300) 1) locksInTurn).lock.counter = 1 ∧
      Counts (TTLLock.init 300).counter (final exec (start (.init 300) 1) locksInTurn) := by
  have hallowed : Execution.Along exec Allowed (start (.init 300) 1) locksInTurn := by decide
  have halone : Execution.Along exec ResetsAlone (start (.init 300) 1) locksInTurn := by decide
  exact ⟨by decide, counts_of_resetsAlone (.inl rfl) hallowed halone⟩

def lockBetweenWrites : List TTLEvent :=
  [.lock, .step 0, .step 0, .step 0, .lock, .step 1, .step 1, .step 1, .step 1, .step 0]

theorem not_counts_lockBetweenWrites :
    ¬ ∀ (l : TTLLock) (now : ℕ) (events : List TTLEvent), l.counter = 0 ∨ l.expirationMs ≤ now →
      Execution.Along exec Allowed (start l now) events →
      Counts l.counter (final exec (start l now) events) := by
  intro h
  have hcounts := h (.init 300) 1 lockBetweenWrites (.inl rfl) (by decide)
  exact absurd (hcounts.counted (by decide) (.inl (by decide))) (by decide)

end TTLRun

end LMCache
