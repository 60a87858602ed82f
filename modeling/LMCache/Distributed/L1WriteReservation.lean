import LMCache.Distributed.L1Objects

namespace LMCache

open List L1MemoryManager Prod Dict

namespace L1Manager

variable {K : Type}

def IsSuccess (r : Option L1OperationResult) : Prop := ∃ obj, r = some (.success, obj)

def newEntry (m : L1Manager K) (now i : ℕ) (isTemp : Bool) : L1ObjectState where
  memoryObj := m.memoryManager.created + i
  writeLock := (TTLLock.init m.writeTtlSeconds).lock now
  readLock := TTLLock.init m.readTtlSeconds
  isTemporary := isTemp

inductive WriteOutcome (m : L1Manager K) (now : ℕ) (mode : WriteMode) (needs : List (K × Bool))
    (k : K) : Option L1ObjectState → Option L1ObjectState → Option L1OperationResult → Prop where
  | untouched {entry : Option L1ObjectState} {r : Option L1OperationResult} (h : ¬ IsSuccess r) :
      WriteOutcome m now mode needs k entry entry r
  | allocated {i : ℕ} {isTemp : Bool} (h : needs[i]? = some (k, isTemp)) :
      WriteOutcome m now mode needs k none (some (newEntry m now i isTemp))
        (some (.success, some (m.memoryManager.created + i)))
  | relocked {e : L1ObjectState} {r : Option L1OperationResult} (n : ℕ)
      (hnew : mode ≠ .new) (havail : e.availableForWrite now = true)
      (hr : ∀ obj, r = some (.success, obj) → obj = some e.memoryObj) :
      WriteOutcome m now mode needs k (some e)
        (some { e with writeLock := e.writeLock.lockTimes now (n + 1) }) r

section Outcome

variable {m : L1Manager K} {now : ℕ} {mode : WriteMode} {needs : List (K × Bool)} {k : K}
  {o o' : Option L1ObjectState} {e e' : L1ObjectState} {r : Option L1OperationResult}

theorem WriteOutcome.origin (h : WriteOutcome m now mode needs k o (some e') r) :
    (∃ e n, o = some e ∧ e' = { e with writeLock := e.writeLock.lockTimes now n } ∧
      (0 < n → e.availableForWrite now = true) ∧ (IsSuccess r → 0 < n)) ∨
    o = none ∧ ∃ i isTemp, needs[i]? = some (k, isTemp) ∧ e' = newEntry m now i isTemp := by
  cases h with
  | untouched hr => exact .inl ⟨e', 0, rfl, rfl, by simp, fun hs => absurd hs hr⟩
  | allocated hi => exact .inr ⟨rfl, _, _, hi, rfl⟩
  | relocked n _ havail _ => exact .inl ⟨_, n + 1, rfl, rfl, fun _ => havail, fun _ => n.succ_pos⟩

theorem WriteOutcome.kept (h : WriteOutcome m now mode needs k (some e) o' r) :
    ∃ n, o' = some { e with writeLock := e.writeLock.lockTimes now n } := by
  cases h with
  | untouched hr => exact ⟨0, rfl⟩
  | relocked n _ _ _ => exact ⟨n + 1, rfl⟩

theorem WriteOutcome.of_success (h : WriteOutcome m now mode needs k o o' r)
    (hs : IsSuccess r) : ∃ e', o' = some e' := by
  cases h with
  | untouched hr => exact absurd hs hr
  | allocated hi => exact ⟨_, rfl⟩
  | relocked n _ _ _ => exact ⟨_, rfl⟩

end Outcome

variable [DecidableEq K]

def Visited (now : ℕ) (mode : WriteMode) (p : WritePass K) (k : K) : Option L1ObjectState → Prop
  | none => p.objects.get? k = none ∧ p.ret.get? k = none
  | some e =>
      k ∉ p.needToAllocate.map fst ∧
      ∃ n, p.objects.get? k = some { e with writeLock := e.writeLock.lockTimes now n } ∧
        (0 < n → e.availableForWrite now = true ∧ mode ≠ .new) ∧
        ∀ obj, p.ret.get? k = some (.success, obj) → 0 < n ∧ obj = some e.memoryObj

variable {p : WritePass K}

theorem visited_refuse {now : ℕ} {mode : WriteMode} {key k : K} {o : Option L1ObjectState}
    (h : Visited now mode p k o) (hkey : p.objects.get? key ≠ none) :
    Visited now mode { p with ret := p.ret.set key (.keyNotWritable, none) } k o := by
  cases o with
  | none =>
    have hne : ¬ key = k := by
      rintro rfl
      exact hkey h.1
    exact ⟨h.1, by simp only [get?_set, if_neg hne]; exact h.2⟩
  | some e =>
    obtain ⟨hmem, n, hobj, hpos, hret⟩ := h
    refine ⟨hmem, n, hobj, hpos, fun obj hr => ?_⟩
    simp only [get?_set] at hr
    split_ifs at hr with hk
    · simp at hr
    · exact hret obj hr

theorem visited_visitWrite {now : ℕ} {mode : WriteMode} {k : K} {o : Option L1ObjectState}
    (request : K × Bool) (h : Visited now mode p k o) :
    Visited now mode (visitWrite now mode p request) k o := by
  obtain ⟨key, isTemp⟩ := request
  cases hkey : p.objects.get? key with
  | none =>
    simp only [visitWrite, hkey]
    cases o with
    | none => exact h
    | some e =>
      obtain ⟨hmem, n, hobj, hpos, hret⟩ := h
      refine ⟨?_, n, hobj, hpos, hret⟩
      simp only [map_append, map_cons, map_nil, mem_append, mem_singleton, not_or]
      refine ⟨hmem, ?_⟩
      rintro rfl
      rw [hkey] at hobj
      simp at hobj
  | some entry =>
    have hne : p.objects.get? key ≠ none := by simp [hkey]
    simp only [visitWrite, hkey]
    split_ifs with hmode havail
    · exact visited_refuse h hne
    · exact visited_refuse h hne
    · rw [Bool.not_eq_true', Bool.not_eq_false] at havail
      by_cases hk : key = k
      · subst hk
        cases o with
        | none => exact absurd (hkey.symm.trans h.1) (by simp)
        | some e =>
          obtain ⟨hmem, n, hobj, hpos, hret⟩ := h
          have hentry : entry = { e with writeLock := e.writeLock.lockTimes now n } :=
            Option.some.inj (hkey.symm.trans hobj)
          have he : e.availableForWrite now = true := by
            rcases Nat.eq_zero_or_pos n with rfl | hn
            · rw [hentry] at havail
              exact havail
            · exact (hpos hn).1
          refine ⟨hmem, n + 1, ?_, fun _ => ⟨he, hmode⟩, fun obj hr => ?_⟩
          · simp only [get?_set_self, hentry, TTLLock.lockTimes_succ]
          · simp only [get?_set_self, hentry, Option.some.injEq, Prod.mk.injEq, true_and] at hr
            exact ⟨Nat.succ_pos n, hr.symm⟩
      · cases o with
        | none =>
          exact ⟨by simp only [get?_set, if_neg hk]; exact h.1,
            by simp only [get?_set, if_neg hk]; exact h.2⟩
        | some e =>
          obtain ⟨hmem, n, hobj, hpos, hret⟩ := h
          refine ⟨hmem, n, ?_, hpos, fun obj hr => ?_⟩
          · simp only [get?_set, if_neg hk]
            exact hobj
          · simp only [get?_set, if_neg hk] at hr
            exact hret obj hr

theorem visited_foldl {now : ℕ} {mode : WriteMode} {k : K} {o : Option L1ObjectState}
    (requests : List (K × Bool)) (h : Visited now mode p k o) :
    Visited now mode (requests.foldl (visitWrite now mode) p) k o := by
  induction requests generalizing p with
  | nil => exact h
  | cons request requests ih => exact ih (visited_visitWrite request h)

theorem visited_start (now : ℕ) (mode : WriteMode) (objects : Dict K L1ObjectState) (k : K) :
    Visited now mode ⟨objects, .empty, [], []⟩ k (objects.get? k) := by
  cases he : objects.get? k with
  | none => exact ⟨he, rfl⟩
  | some e => exact ⟨by simp, 0, by simpa [TTLLock.lockTimes] using he, by simp, by simp⟩

theorem refuseAll_get? (reply : L1OperationResult) (ret : Dict K L1OperationResult)
    (requests : List (K × Bool)) (k : K) :
    (refuseAll reply ret requests).get? k =
      if k ∈ requests.map fst then some reply else ret.get? k := by
  induction requests generalizing ret with
  | nil => simp [refuseAll]
  | cons request requests ih =>
    have hcons : refuseAll reply ret (request :: requests) =
        refuseAll reply (ret.set request.1 reply) requests := rfl
    rw [hcons, ih, get?_set, map_cons]
    by_cases hmem : k ∈ requests.map fst
    · rw [if_pos hmem, if_pos (mem_cons_of_mem _ hmem)]
    · rw [if_neg hmem]
      by_cases hk : request.1 = k
      · rw [if_pos hk, if_pos (hk ▸ mem_cons_self)]
      · have hnot : k ∉ request.1 :: requests.map fst := by
          rw [mem_cons, not_or]
          exact ⟨fun h => hk h.symm, hmem⟩
        rw [if_neg hk, if_neg hnot]

theorem foldl_install (now wTtl rTtl : ℕ) (pairs : List ((K × Bool) × MemoryObj)) (p : WritePass K)
    (k : K) :
    ((pairs.foldl (install now wTtl rTtl) p).objects.get? k = p.objects.get? k ∧
      (pairs.foldl (install now wTtl rTtl) p).ret.get? k = p.ret.get? k ∧
      ∀ a ∈ pairs, a.1.1 ≠ k) ∨
    ∃ a ∈ pairs, a.1.1 = k ∧
      (pairs.foldl (install now wTtl rTtl) p).objects.get? k =
        some ⟨a.2, (TTLLock.init wTtl).lock now, TTLLock.init rTtl, a.1.2⟩ ∧
      (pairs.foldl (install now wTtl rTtl) p).ret.get? k = some (.success, some a.2) := by
  induction pairs generalizing p with
  | nil => exact .inl ⟨rfl, rfl, by simp⟩
  | cons a pairs ih =>
    rw [foldl_cons]
    rcases ih (p := install now wTtl rTtl p a) with ⟨hobj, hret, hne⟩ | ⟨b, hb, hk, hobj, hret⟩
    · rw [hobj, hret]
      simp only [install, get?_set]
      by_cases hk : a.1.1 = k
      · exact .inr ⟨a, by simp, hk, by rw [if_pos hk], by rw [if_pos hk]⟩
      · refine .inl ⟨by rw [if_neg hk], by rw [if_neg hk], fun b hb => ?_⟩
        rcases mem_cons.mp hb with rfl | hb
        · exact hk
        · exact hne b hb
    · exact .inr ⟨b, mem_cons_of_mem _ hb, hk, hobj, hret⟩

theorem writeOutcome_of_visited {m : L1Manager K} {now : ℕ} {mode : WriteMode}
    {needs : List (K × Bool)} {k : K} {r : Option L1OperationResult}
    (h : Visited now mode p k (m.objects.get? k)) (hr : IsSuccess r → r = p.ret.get? k) :
    WriteOutcome m now mode needs k (m.objects.get? k) (p.objects.get? k) r := by
  cases he : m.objects.get? k with
  | none =>
    rw [he] at h
    rw [h.1]
    refine .untouched fun hs => ?_
    have := hr hs
    obtain ⟨obj, rfl⟩ := hs
    simp [h.2] at this
  | some e =>
    rw [he] at h
    obtain ⟨_, n, hobj, hpos, hret⟩ := h
    rw [hobj]
    cases n with
    | zero =>
      refine .untouched fun hs => ?_
      obtain ⟨obj, hsome⟩ := hs
      have := (hret obj ((hr ⟨obj, hsome⟩) ▸ hsome)).1
      omega
    | succ n =>
      refine .relocked n (hpos (Nat.succ_pos n)).2 (hpos (Nat.succ_pos n)).1 fun obj hsome => ?_
      exact (hret obj ((hr ⟨obj, hsome⟩) ▸ hsome)).2

variable {requests : List (K × Bool)}

theorem mem_needToAllocate {now : ℕ} {mode : WriteMode} {r : K × Bool}
    (h : r ∈ (requests.foldl (visitWrite now mode) p).needToAllocate) :
    r ∈ p.needToAllocate ∨ r ∈ requests := by
  induction requests generalizing p with
  | nil => exact .inl h
  | cons request requests ih =>
    rcases ih h with h | h
    · have hvisit : r ∈ p.needToAllocate ∨ r = request := by
        revert h
        simp only [visitWrite]
        cases p.objects.get? request.1 with
        | none => simp
        | some entry =>
          dsimp only
          split_ifs <;> exact .inl
      rcases hvisit with h | rfl
      · exact .inl h
      · exact .inr mem_cons_self
    · exact .inr (mem_cons_of_mem _ h)

variable (m : L1Manager K) (now : ℕ) (granted : Bool) (keys : List K) (isTemporary : List Bool)
  (mode : WriteMode)

theorem reserveWrite_spec :
    ∃ needs : List (K × Bool),
      (m.reserveWrite now granted keys isTemporary mode).2.memoryManager =
        ⟨m.memoryManager.created + needs.length, m.memoryManager.freed⟩ ∧
      (∀ r ∈ needs, r ∈ keys.zip isTemporary) ∧
      ∀ k, WriteOutcome m now mode needs k (m.objects.get? k)
        ((m.reserveWrite now granted keys isTemporary mode).2.objects.get? k)
        ((m.reserveWrite now granted keys isTemporary mode).1.get? k) := by
  have hvisited := fun k => visited_foldl (keys.zip isTemporary) (visited_start now mode m.objects k)
  have hneeds : ∀ r ∈ ((keys.zip isTemporary).foldl (visitWrite now mode)
      ⟨m.objects, .empty, [], []⟩).needToAllocate, r ∈ keys.zip isTemporary := fun r hr =>
    (mem_needToAllocate hr).resolve_left (by simp)
  unfold reserveWrite
  generalize (keys.zip isTemporary).foldl (visitWrite now mode) ⟨m.objects, .empty, [], []⟩ = p
    at hvisited hneeds
  dsimp only
  split_ifs with hempty hmode
  · exact ⟨[], rfl, by simp, fun k => writeOutcome_of_visited (hvisited k) fun _ => rfl⟩
  · refine ⟨[], rfl, by simp, fun k => writeOutcome_of_visited (hvisited k) fun hs => ?_⟩
    rw [refuseAll_get?] at hs ⊢
    split_ifs at hs ⊢ with hk
    · simp [IsSuccess] at hs
    · rfl
  · cases granted with
    | false =>
      refine ⟨[], by simp [allocate, free, notify], by simp, fun k => ?_⟩
      refine writeOutcome_of_visited (hvisited k) fun hs => ?_
      simp only [allocate, Bool.false_eq_true, if_false, refuseAll_get?] at hs ⊢
      split_ifs at hs ⊢ with hk
      · simp [IsSuccess] at hs
      · rfl
    | true =>
      refine ⟨p.needToAllocate, rfl, hneeds, fun k => ?_⟩
      simp only [allocate, if_true, notify]
      rcases foldl_install now m.writeTtlSeconds m.readTtlSeconds
        (p.needToAllocate.zip (range' m.memoryManager.created p.needToAllocate.length))
        p k with
        ⟨hobj, hret, hne⟩ | ⟨a, ha, hk, hobj, hret⟩
      · rw [hobj, hret]
        exact writeOutcome_of_visited (hvisited k) fun _ => rfl
      · obtain ⟨i, hi, rfl⟩ := mem_iff_getElem.mp ha
        have hlen : i < p.needToAllocate.length := by simpa using hi
        have hmem : k ∈ p.needToAllocate.map fst := by
          rw [← hk, getElem_zip]
          exact mem_map_of_mem (getElem_mem hlen)
        have hnone : m.objects.get? k = none := by
          cases he : m.objects.get? k with
          | none => rfl
          | some e =>
            have := hvisited k
            rw [he] at this
            exact absurd hmem this.1
        rw [hobj, hret, hnone]
        simp only [getElem_zip, getElem_range', Nat.one_mul] at hk ⊢
        refine .allocated ?_
        rw [getElem?_eq_getElem hlen, ← hk]

theorem visitWrite_of_ne {mode : WriteMode} {r : K × Bool} {k : K} {now : ℕ} (hk : r.1 ≠ k) :
    (visitWrite now mode p r).objects.get? k = p.objects.get? k := by
  simp only [visitWrite]
  cases p.objects.get? r.1 with
  | none => rfl
  | some entry =>
    dsimp only
    split_ifs
    · rfl
    · rfl
    · exact get?_set_ne _ _ hk

theorem foldl_visitWrite_of_not_mem {k : K} (hk : ∀ r ∈ requests, r.1 ≠ k) (p : WritePass K) :
    (requests.foldl (visitWrite now mode) p).objects.get? k = p.objects.get? k := by
  induction requests generalizing p with
  | nil => rfl
  | cons r requests ih =>
    rw [foldl_cons, ih (fun s hs => hk s (mem_cons_of_mem _ hs)),
      visitWrite_of_ne (hk r mem_cons_self)]

theorem reserveWrite_of_not_mem {keys : List K} {k : K} (hk : k ∉ keys) :
    (m.reserveWrite now granted keys isTemporary mode).2.objects.get? k = m.objects.get? k := by
  have hrequests : ∀ r ∈ keys.zip isTemporary, r.1 ≠ k := by
    rintro ⟨k', isTemp⟩ hr rfl
    exact hk (of_mem_zip hr).1
  have hpass := foldl_visitWrite_of_not_mem now mode hrequests
    ⟨m.objects, .empty, [], []⟩
  have hneeds : ∀ r ∈ ((keys.zip isTemporary).foldl (visitWrite now mode)
      ⟨m.objects, .empty, [], []⟩).needToAllocate, r.1 ≠ k := fun r hr =>
    hrequests r ((mem_needToAllocate hr).resolve_left (by simp))
  unfold reserveWrite
  generalize (keys.zip isTemporary).foldl (visitWrite now mode) ⟨m.objects, .empty, [], []⟩ = p
    at hpass hneeds
  dsimp only
  split_ifs
  · exact hpass
  · exact hpass
  · cases granted with
    | false => exact hpass
    | true =>
      simp only [allocate, if_true, notify]
      rcases foldl_install now m.writeTtlSeconds m.readTtlSeconds
        (p.needToAllocate.zip (range' m.memoryManager.created p.needToAllocate.length))
        p k with
        ⟨hobj, _, _⟩ | ⟨a, ha, hkey, _, _⟩
      · rw [hobj, hpass]
      · exact absurd hkey (hneeds a.1 (of_mem_zip ha).1)

theorem visitWrite_absent {k : K} (hk : p.objects.get? k = none) (r : K × Bool) :
    (visitWrite now mode p r).objects.get? k = none ∧
      (k ∈ (visitWrite now mode p r).needToAllocate.map fst ↔
        k = r.1 ∨ k ∈ p.needToAllocate.map fst) := by
  cases he : p.objects.get? r.1 with
  | none =>
    simp only [visitWrite, he, map_append, map_cons, map_nil, mem_append, mem_singleton]
    exact ⟨hk, or_comm⟩
  | some entry =>
    have hne : ¬ k = r.1 := by
      rintro rfl
      simp [hk] at he
    have hne' : ¬ r.1 = k := fun h => hne h.symm
    simp only [visitWrite, he]
    split_ifs
    · exact ⟨hk, by simp [hne]⟩
    · exact ⟨hk, by simp [hne]⟩
    · exact ⟨by rw [get?_set, if_neg hne', hk], by simp [hne]⟩

theorem foldl_visitWrite_absent (requests : List (K × Bool)) {k : K}
    (hk : p.objects.get? k = none) :
    (requests.foldl (visitWrite now mode) p).objects.get? k = none ∧
      (k ∈ (requests.foldl (visitWrite now mode) p).needToAllocate.map fst ↔
        k ∈ requests.map fst ∨ k ∈ p.needToAllocate.map fst) := by
  induction requests generalizing p with
  | nil => exact ⟨hk, by simp⟩
  | cons r requests ih =>
    obtain ⟨habsent, hneeds⟩ := visitWrite_absent now mode hk r
    obtain ⟨hobj, hmem⟩ := ih habsent
    refine ⟨hobj, ?_⟩
    rw [foldl_cons, hmem, hneeds, map_cons, mem_cons]
    tauto

theorem reserveWrite_cases (k : K) :
    (∃ e n, m.objects.get? k = some e ∧
      (m.reserveWrite now granted keys isTemporary mode).2.objects.get? k =
        some { e with writeLock := e.writeLock.lockTimes now n } ∧
      (0 < n → e.availableForWrite now = true)) ∨
    m.objects.get? k = none ∧
      ((m.reserveWrite now granted keys isTemporary mode).2.objects.get? k = none ∨
        k ∈ keys ∧ ∃ i isTemp,
          (m.reserveWrite now granted keys isTemporary mode).2.objects.get? k =
            some (newEntry m now i isTemp)) := by
  obtain ⟨needs, _, hneeds, hout⟩ := m.reserveWrite_spec now granted keys isTemporary mode
  have hk := hout k
  generalize m.objects.get? k = o at hk
  generalize (m.reserveWrite now granted keys isTemporary mode).2.objects.get? k = o' at hk
  generalize (m.reserveWrite now granted keys isTemporary mode).1.get? k = r at hk
  cases hk with
  | untouched =>
    cases o with
    | none => exact .inr ⟨rfl, .inl rfl⟩
    | some e => exact .inl ⟨e, 0, rfl, rfl, fun h => absurd h (Nat.lt_irrefl 0)⟩
  | @allocated i isTemp hi =>
    have hmem := of_mem_zip (hneeds _ (mem_of_getElem? hi))
    exact .inr ⟨rfl, .inr ⟨hmem.1, i, isTemp, rfl⟩⟩
  | @relocked e _ n _ havail _ => exact .inl ⟨e, n + 1, rfl, rfl, fun _ => havail⟩

theorem reserveWrite_absent_iff {k : K} (hk : m.objects.get? k = none) :
    ((m.reserveWrite now granted keys isTemporary mode).2.objects.get? k).isSome = true ↔
      granted = true ∧ mode ≠ .update ∧ k ∈ (keys.zip isTemporary).map fst := by
  obtain ⟨hobj, hneeds⟩ := foldl_visitWrite_absent now mode (keys.zip isTemporary)
    (p := ⟨m.objects, .empty, [], []⟩) hk
  rw [map_nil, or_iff_left not_mem_nil] at hneeds
  rw [← hneeds]
  unfold reserveWrite
  generalize (keys.zip isTemporary).foldl (visitWrite now mode) ⟨m.objects, .empty, [], []⟩ = p
    at hobj
  dsimp only
  split_ifs with hempty hmode
  · simp [hobj, isEmpty_iff.mp hempty]
  · simp [hobj, hmode]
  · cases granted with
    | false => simp [allocate, notify, hobj]
    | true =>
      simp only [allocate, if_true, notify]
      rcases foldl_install now m.writeTtlSeconds m.readTtlSeconds
        (p.needToAllocate.zip (range' m.memoryManager.created p.needToAllocate.length))
        p k with ⟨hsame, _, hne⟩ | ⟨a, ha, hkey, hnew, _⟩
      · rw [hsame, hobj]
        refine iff_of_false Bool.false_ne_true fun h => ?_
        obtain ⟨_, _, hmem⟩ := h
        obtain ⟨r, hr, rfl⟩ := mem_map.mp hmem
        obtain ⟨i, hi, rfl⟩ := mem_iff_getElem.mp hr
        have hlen : i < (p.needToAllocate.zip
            (range' m.memoryManager.created p.needToAllocate.length)).length := by
          simpa using hi
        exact hne _ (getElem_mem hlen) (by rw [getElem_zip])
      · rw [hnew]
        exact iff_of_true rfl ⟨trivial, hmode, hkey ▸ mem_map_of_mem (of_mem_zip ha).1⟩

theorem reserveWrite_new {m m' : L1Manager K} {now : ℕ} {granted : Bool} {keys : List K}
    {ret : Dict K L1OperationResult}
    (h : m.reserveWrite now granted keys (replicate keys.length true) .new = (ret, m')) (k : K) :
    (m'.objects.get? k = m.objects.get? k ∧ ¬ IsSuccess (ret.get? k)) ∨
      k ∈ keys ∧ m.objects.get? k = none ∧ ∃ i, m'.objects.get? k = some (newEntry m now i true) ∧
        ret.get? k = some (.success, some (m.memoryManager.created + i)) := by
  obtain ⟨needs, _, hneeds, hout⟩ :=
    m.reserveWrite_spec now granted keys (replicate keys.length true) .new
  have hk := hout k
  rw [h] at hk
  dsimp only at hk
  generalize m.objects.get? k = o at hk
  generalize m'.objects.get? k = o' at hk
  generalize ret.get? k = r at hk
  cases hk with
  | untouched hr => exact .inl ⟨rfl, hr⟩
  | @allocated i isTemp hi =>
    obtain ⟨hkey, htemp⟩ := of_mem_zip (hneeds _ (mem_of_getElem? hi))
    obtain rfl := eq_of_mem_replicate htemp
    exact .inr ⟨hkey, rfl, i, rfl, rfl⟩
  | relocked n hnew _ _ => exact absurd rfl hnew

theorem reserveWrite_ttl :
    (m.reserveWrite now granted keys isTemporary mode).2.writeTtlSeconds = m.writeTtlSeconds ∧
      (m.reserveWrite now granted keys isTemporary mode).2.readTtlSeconds = m.readTtlSeconds := by
  unfold reserveWrite
  dsimp only
  split_ifs
  · exact ⟨rfl, rfl⟩
  · exact ⟨rfl, rfl⟩
  · cases granted <;> exact ⟨rfl, rfl⟩

end L1Manager

end LMCache
