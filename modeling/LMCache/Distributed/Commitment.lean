import LMCache.Distributed.ExclusiveRuns

namespace LMCache

open L1Manager TTLLock Option

structure L1History (K : Type) where
  manager : L1Manager K
  now : ℕ
  committed : List (K × MemoryObj)

namespace L1History

open L1Manager (stepEntry replyOf)

variable {K : Type} [DecidableEq K]

def init (writeTtl readTtl now : ℕ) : L1History K := ⟨L1Manager.init writeTtl readTtl, now, []⟩

def finished (m : L1Manager K) (ret : K → Option L1Error) (keys : List K) : List (K × MemoryObj) :=
  keys.filterMap (fun k =>
    if ret k = some .success then (m.objects.get? k).map (fun e => (k, e.memoryObj)) else none)

variable (s : L1History K)

def committedAfter : L1Step K → List (K × MemoryObj)
  | .finishWrite keys =>
      s.committed ++ finished s.manager (s.manager.finishWrite s.now keys).1.get? keys
  | .finishWriteAndReserveRead keys extraCount =>
      s.committed ++ finished s.manager (fun k =>
        ((s.manager.finishWriteAndReserveRead s.now keys extraCount).1.get? k).map Prod.fst) keys
  | _ => s.committed

def exec (l : L1Step K) : L1History K where
  manager := s.manager.step s.now l
  now := l.tick s.now
  committed := s.committedAfter l

def AllCommitted (ret : Dict K L1OperationResult) : Prop :=
  ∀ k obj, ret.get? k = some (.success, some obj) → (k, obj) ∈ s.committed

def Served : L1Step K → Prop
  | .reserveRead keys extraCount => AllCommitted s (s.manager.reserveRead s.now keys extraCount).1
  | .unsafeRead keys => AllCommitted s (s.manager.unsafeRead s.now keys)
  | _ => True

def InTime : L1Step K → Prop
  | .reserveRead keys _ => ∀ k ∈ keys, ∀ e, s.manager.objects.get? k = some e →
      (k, e.memoryObj) ∉ s.committed → s.now < e.writeLock.expirationMs
  | _ => True

def DistinctFinish : L1Step K → Prop
  | .finishWrite keys => keys.Nodup
  | .finishWriteAndReserveRead keys _ => keys.Nodup
  | _ => True

def Unfinished (e : L1ObjectState) : Prop := e.readLock.counter = 0 ∧ 0 < e.writeLock.counter

def Inv : Prop :=
  ∀ k e, s.manager.objects.get? k = some e → (k, e.memoryObj) ∉ s.committed → Unfinished e

variable {now : ℕ} {e : L1ObjectState}

theorem Unfinished.not_readLocked (h : Unfinished e) : e.readLock.isLocked now = false := by
  simp [isLocked, h.1]

theorem Unfinished.writeLocked (h : Unfinished e) (hlt : now < e.writeLock.expirationMs) :
    e.writeLock.isLocked now = true := by
  simp [isLocked, h.2, hlt]

theorem Unfinished.availableForRead_iff (h : Unfinished e) :
    e.availableForRead now = true ↔ ¬ now < e.writeLock.expirationMs := by
  simp [L1ObjectState.availableForRead, isLocked, h.2]

variable {keys : List K}

theorem mem_finished {m : L1Manager K} {ret : K → Option L1Error} {k : K} (hk : k ∈ keys)
    (hret : ret k = some .success) (he : m.objects.get? k = some e) :
    (k, e.memoryObj) ∈ finished m ret keys :=
  List.mem_filterMap.mpr ⟨k, hk, by rw [if_pos hret, he]; rfl⟩

theorem unfinished_of_pass {R : Type} {absent : R} {act : L1ObjectState → Verdict R}
    {objects : Dict K L1ObjectState} {committed : List (K × MemoryObj)} (keys : List K)
    (hact : ∀ e e', stepEntry act (some e) = some e' →
      e'.memoryObj = e.memoryObj ∧ (Unfinished e → e' = e))
    (h : ∀ k e, objects.get? k = some e → (k, e.memoryObj) ∉ committed → Unfinished e) :
    ∀ k e, (keyPass absent act objects keys).objects.get? k = some e →
      (k, e.memoryObj) ∉ committed → Unfinished e := by
  intro k
  refine (keyPass_spec (d := absent) (f := act)
    (Ψ := fun o => ∀ e, o = some e → (k, e.memoryObj) ∉ committed → Unfinished e)
    (fun o ho e' he' hnot => ?_) keys fun e he => h k e he).1
  cases o with
  | none => simp [stepEntry] at he'
  | some e =>
    obtain ⟨hobj, hsame⟩ := hact e e' he'
    have hun := ho e rfl (hobj ▸ hnot)
    rw [hsame hun]
    exact hun

theorem Inv.finishRead {s : L1History K} (h : Inv s) (keys : List K) (extraCount : ℤ) :
    Inv (s.exec (.finishRead keys extraCount)) := by
  refine unfinished_of_pass keys (fun e e' he' => ?_) h
  rw [stepEntry] at he'
  rcases finishReadKey_cases s.now (1 + validateExtraCount extraCount) e with
    hact | ⟨_, hread, hact | hact⟩
  · rw [hact] at he'
    obtain rfl := some.inj he'
    exact ⟨rfl, fun _ => rfl⟩
  · rw [hact] at he'
    simp at he'
  · rw [hact] at he'
    obtain rfl := some.inj he'
    exact ⟨rfl, fun hun => by simp [hun.not_readLocked] at hread⟩

theorem Inv.delete {s : L1History K} (h : Inv s) (keys : List K) : Inv (s.exec (.delete keys)) := by
  refine unfinished_of_pass keys (fun e e' he' => ?_) h
  rw [stepEntry] at he'
  rcases deleteKey_cases s.now e with hact | ⟨_, _, hact⟩
  · rw [hact] at he'
    obtain rfl := some.inj he'
    exact ⟨rfl, fun _ => rfl⟩
  · rw [hact] at he'
    simp at he'

theorem Inv.clear {s : L1History K} (h : Inv s) (force : Bool) : Inv (s.exec (.clear force)) :=
  fun k e he hnot => h k e (L1Manager.get?_of_clear he) hnot

theorem Inv.reserveWrite {s : L1History K} (h : Inv s) (granted : Bool) (keys : List K)
    (isTemporary : List Bool) (mode : WriteMode) :
    Inv (s.exec (.reserveWrite granted keys isTemporary mode)) := by
  obtain ⟨needs, _, _, hout⟩ := s.manager.reserveWrite_spec s.now granted keys isTemporary mode
  intro k e' he' hnot
  simp only [exec, committedAfter, step] at he' hnot
  have hk := hout k
  rw [he'] at hk
  rcases hk.origin with ⟨e, n, he, rfl, _⟩ | ⟨_, i, isTemp, _, rfl⟩
  · obtain ⟨hread, hwrite⟩ := h k e he hnot
    refine ⟨hread, ?_⟩
    cases n with
    | zero => exact hwrite
    | succ n =>
      rw [lockTimes_succ]
      exact lock_counter_pos _ _
  · exact ⟨rfl, lock_counter_pos _ _⟩

theorem Inv.finishWrite {s : L1History K} (h : Inv s) (hnodup : keys.Nodup) :
    Inv (s.exec (.finishWrite keys)) := by
  intro k e' he' hnot
  simp only [exec, committedAfter, L1Manager.step, L1Manager.finishWrite, L1Manager.notify, L1Manager.finishWritePass,
    List.mem_append, not_or] at he' hnot
  by_cases hk : k ∈ keys
  · obtain ⟨hobj, hret⟩ := L1Manager.keyPass_of_mem (d := L1Error.keyNotExist)
      (f := L1Manager.finishWriteKey s.now) hnodup hk s.manager.objects
    rw [hobj] at he'
    cases he : s.manager.objects.get? k with
    | none => simp [he, stepEntry] at he'
    | some e =>
      rw [he, stepEntry] at he'
      rw [he, replyOf] at hret
      rcases L1Manager.finishWriteKey_cases s.now e with hact | ⟨_, _, hact⟩
      · rw [hact] at he'
        obtain rfl := some.inj he'
        exact h k e he hnot.1
      · rw [hact] at he' hret
        obtain rfl := some.inj he'
        exact absurd (mem_finished hk hret he) hnot.2
  · rw [(L1Manager.keyPass_of_not_mem hk _).1] at he'
    exact h k e' he' hnot.1

theorem Inv.finishWriteAndReserveRead {s : L1History K} (h : Inv s) (hnodup : keys.Nodup)
    (extraCount : ℤ) :
    Inv (s.exec (.finishWriteAndReserveRead keys extraCount)) := by
  intro k e' he' hnot
  simp only [exec, committedAfter, L1Manager.step, L1Manager.finishWriteAndReserveRead, L1Manager.notify,
    L1Manager.finishWriteAndReserveReadPass, List.mem_append, not_or] at he' hnot
  by_cases hk : k ∈ keys
  · obtain ⟨hobj, hret⟩ := L1Manager.keyPass_of_mem (d := (L1Error.keyNotExist, none))
      (f := L1Manager.finishWriteAndReserveReadKey s.now (1 + validateExtraCount extraCount))
      hnodup hk s.manager.objects
    rw [hobj] at he'
    cases he : s.manager.objects.get? k with
    | none => simp [he, stepEntry] at he'
    | some e =>
      rw [he, stepEntry] at he'
      rw [he, replyOf] at hret
      rcases L1Manager.finishWriteAndReserveReadKey_cases s.now
        (1 + validateExtraCount extraCount) e with hact | ⟨_, _, hact⟩
      · rw [hact] at he'
        obtain rfl := some.inj he'
        exact h k e he hnot.1
      · rw [hact] at he' hret
        obtain rfl := some.inj he'
        exact absurd (mem_finished hk (by rw [hret]; rfl) he) hnot.2
  · rw [(L1Manager.keyPass_of_not_mem hk _).1] at he'
    exact h k e' he' hnot.1

theorem Inv.reserveRead {s : L1History K} (h : Inv s) {extraCount : ℤ}
    (htime : InTime s (.reserveRead keys extraCount)) :
    Inv (s.exec (.reserveRead keys extraCount)) := by
  intro k e' he' hnot
  simp only [exec, committedAfter, L1Manager.step, L1Manager.reserveRead, L1Manager.notify,
    L1Manager.reserveReadPass] at he' hnot
  by_cases hk : k ∈ keys
  · have hstep : ∀ o : Option L1ObjectState,
        (∀ e, o = some e → (k, e.memoryObj) ∉ s.committed →
          Unfinished e ∧ s.now < e.writeLock.expirationMs) →
        ∀ e, stepEntry (reserveReadKey s.now (1 + validateExtraCount extraCount)) o = some e →
          (k, e.memoryObj) ∉ s.committed → Unfinished e ∧ s.now < e.writeLock.expirationMs := by
      intro o ho e' he' hnot
      cases o with
      | none => simp [stepEntry] at he'
      | some e =>
        simp only [stepEntry, reserveReadKey] at he'
        by_cases havail : e.availableForRead s.now = true
        · simp only [havail, Bool.not_true, Bool.false_eq_true, if_false, some.injEq] at he'
          obtain rfl := he'
          obtain ⟨hun, hlt⟩ := ho e rfl hnot
          exact absurd hlt (hun.availableForRead_iff.mp havail)
        · simp only [havail, Bool.not_false, if_true, some.injEq] at he'
          obtain rfl := he'
          exact ho e rfl hnot
    exact ((keyPass_spec (d := (L1Error.keyNotExist, none)) hstep keys
      fun e he hnot => ⟨h k e he hnot, htime k hk e he hnot⟩).1 e' he' hnot).1
  · rw [(L1Manager.keyPass_of_not_mem hk _).1] at he'
    exact h k e' he' hnot

theorem inv_exec (l : L1Step K) (h : Inv s) (hl : DistinctFinish l) (htime : InTime s l) :
    Inv (s.exec l) := by
  cases l with
  | advance ms => exact h
  | reserveRead keys extraCount => exact h.reserveRead htime
  | unsafeRead keys => exact h
  | finishRead keys extraCount => exact h.finishRead keys extraCount
  | reserveWrite granted keys isTemporary mode => exact h.reserveWrite granted keys isTemporary mode
  | finishWrite keys => exact h.finishWrite hl
  | finishWriteAndReserveRead keys extraCount => exact h.finishWriteAndReserveRead hl extraCount
  | delete keys => exact h.delete keys
  | clear force => exact h.clear force

theorem Inv.served_reserveRead {s : L1History K} (h : Inv s) (keys : List K) (extraCount : ℤ) :
    Served s (.reserveRead keys extraCount) ↔ InTime s (.reserveRead keys extraCount) := by
  constructor
  · intro hserved k hk e he hnot
    by_contra hlt
    have havail := (h k e he hnot).availableForRead_iff.mpr hlt
    obtain ⟨r, hr⟩ := keyPass_ret_isSome (d := (L1Error.keyNotExist, none))
      (f := reserveReadKey s.now (1 + validateExtraCount extraCount)) hk
      s.manager.objects
    have hsuccess := reserveReadPass_spec s.manager s.now keys extraCount he r hr
    rw [if_pos havail] at hsuccess
    exact hnot (hserved k e.memoryObj (hsuccess ▸ hr))
  · intro htime k obj hr
    have hk : k ∈ keys := by
      by_contra hk
      rw [show (s.manager.reserveRead s.now keys extraCount).1.get? k = none from
        (keyPass_of_not_mem hk _).2] at hr
      simp at hr
    cases he : s.manager.objects.get? k with
    | none => simpa using reserveReadPass_absent s.manager s.now keys extraCount he _ hr
    | some e =>
      have hsuccess := reserveReadPass_spec s.manager s.now keys extraCount he _ hr
      by_cases havail : e.availableForRead s.now = true
      · rw [if_pos havail, Prod.mk.injEq, some.injEq] at hsuccess
        by_contra hnot
        rw [hsuccess.2] at hnot
        exact (h k e he hnot).availableForRead_iff.mp havail (htime k hk e he hnot)
      · simp [havail] at hsuccess

theorem Inv.served_unsafeRead {s : L1History K} (h : Inv s) (keys : List K) :
    Served s (.unsafeRead keys) := by
  intro k obj hr
  obtain ⟨o, ho, hreply⟩ := (keyPass_spec (d := (L1Error.keyNotExist, none))
    (f := unsafeReadKey s.now) (k := k) (Ψ := fun o => o = s.manager.objects.get? k)
    (fun o ho => (stepEntry_unsafeReadKey _ o).trans ho) keys rfl).2 _ hr
  cases he : s.manager.objects.get? k with
  | none => simp [ho, he, replyOf] at hreply
  | some e =>
    simp only [ho, he, replyOf, unsafeReadKey] at hreply
    by_cases hread : e.readLock.isLocked s.now = true
    · simp only [hread, Bool.not_true, Bool.false_eq_true, if_false, Prod.mk.injEq,
        some.injEq, true_and] at hreply
      subst hreply
      by_contra hnot
      simp [(h k e he hnot).not_readLocked] at hread
    · simp [hread] at hreply

theorem Inv.served_iff {s : L1History K} (h : Inv s) (l : L1Step K) : Served s l ↔ InTime s l := by
  cases l with
  | reserveRead keys extraCount => exact h.served_reserveRead keys extraCount
  | unsafeRead keys => exact iff_of_true (h.served_unsafeRead keys) trivial
  | _ => exact Iff.rfl

theorem inv_init (writeTtl readTtl now : ℕ) : Inv (init writeTtl readTtl now : L1History K) := by
  simp [Inv, init, L1Manager.init]

theorem served_iff_inTime (writeTtl readTtl now : ℕ) (steps : List (L1Step K))
    (hdistinct : ∀ l ∈ steps, DistinctFinish l) :
    Execution.Along exec Served (init writeTtl readTtl now) steps ↔
      Execution.Along exec InTime (init writeTtl readTtl now) steps := by
  have hsteps : Execution.Along exec (fun _ l => DistinctFinish l)
      (init writeTtl readTtl now : L1History K) steps := by
    generalize (init writeTtl readTtl now : L1History K) = s
    induction steps generalizing s with
    | nil => trivial
    | cons l steps ih => exact ⟨hdistinct l (by simp), ih (fun l' hl' => hdistinct l' (by simp [hl'])) _⟩
  exact Execution.along_iff_along inv_exec (fun s l h _ => h.served_iff l)
    (inv_init writeTtl readTtl now) hsteps

def abandonedWrite : List (L1Step ℕ) :=
  [.reserveWrite true [7] [false] .all, .advance 2000, .reserveRead [7] 0]

theorem not_served_abandonedWrite :
    ¬ ∀ (writeTtl readTtl now : ℕ) (steps : List (L1Step ℕ)),
      Execution.Along exec Served (init writeTtl readTtl now) steps := by
  intro h
  obtain ⟨_, _, hread, _⟩ := h 1 1 0 abandonedWrite
  have hmem := hread 7 0 (by decide +kernel)
  revert hmem
  decide +kernel

theorem served_iff_inTime_abandonedWrite :
    ¬ Execution.Along exec InTime (init 1 1 0) abandonedWrite := by
  rw [← served_iff_inTime 1 1 0 abandonedWrite (by simp [abandonedWrite, DistinctFinish])]
  intro ⟨_, _, hread, _⟩
  have hmem := hread 7 0 (by decide +kernel)
  revert hmem
  decide +kernel

end L1History

end LMCache
