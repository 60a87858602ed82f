import LMCache.Distributed.StorageControllers.PrefetchBacking
import LMCache.Distributed.StorageControllers.StoreController

namespace LMCache

open L1Manager List Option L1ObjectState

namespace L1Manager

variable {K : Type} [DecidableEq K]

-- a call that names the key while the buffer is its entry: a read comes before the write lock has
-- timed out, the end of the write not before
def InTime (k : K) (obj : MemoryObj) (m : L1Manager K) (now : ℕ) : L1Step K → Prop
  | .reserveRead keys _ => k ∈ keys →
      ∀ e ∈ m.objects.get? k, e.memoryObj = obj → now < e.writeLock.expirationMs
  | .finishWrite keys | .finishWriteAndReserveRead keys _ => k ∈ keys →
      ∀ e ∈ m.objects.get? k, e.memoryObj = obj → e.writeLock.expirationMs ≤ now
  | _ => True

instance (k : K) (obj : MemoryObj) (m : L1Manager K) (now : ℕ) (op : L1Step K) :
    Decidable (InTime k obj m now op) :=
  match op with
  | .reserveRead _ _ | .finishWrite _ | .finishWriteAndReserveRead _ _ =>
      inferInstanceAs (Decidable (_ → ∀ e ∈ _, _ → _))
  | .advance _ | .unsafeRead _ | .finishRead _ _ | .reserveWrite _ _ _ _ | .delete _ | .clear _ =>
      .isTrue trivial

-- no new entry gets the buffer, and while the key has it, its write is open and nobody reads it
structure Unfilled (k : K) (obj : MemoryObj) (m : L1Manager K) : Prop where
  made : obj < m.memoryManager.created
  fresh : ∀ e ∈ m.objects.get? k, e.memoryObj = obj → e.Fresh

variable {k : K} {obj : MemoryObj} {m : L1Manager K} {now : ℕ}

theorem locked_of_fresh {e : L1ObjectState} (h : e.Fresh) :
    e.writeLock.isLocked now = decide (now < e.writeLock.expirationMs) := by
  simp [TTLLock.isLocked, h.once]

theorem Unfilled.of_pass {R : Type} {absent : R} {act : L1ObjectState → Verdict R}
    {P : L1ObjectState → Prop} (h : Unfilled k obj m) (keys : List K)
    (hact : ∀ e e', stepEntry act (some e) = some e' →
      e' = e ∨ e'.memoryObj = e.memoryObj ∧ ¬ (e.Fresh ∧ P e))
    (hP : k ∈ keys → ∀ e ∈ m.objects.get? k, e.memoryObj = obj → P e) :
    ∀ e ∈ (keyPass absent act m.objects keys).objects.get? k, e.memoryObj = obj → e.Fresh := by
  by_cases hk : k ∈ keys
  · have hstep : ∀ o : Option L1ObjectState, (∀ e ∈ o, e.memoryObj = obj → e.Fresh ∧ P e) →
        ∀ e ∈ stepEntry act o, e.memoryObj = obj → e.Fresh ∧ P e := by
      intro o ho e' he' hobj
      cases o with
      | none => cases he'
      | some e =>
        rcases hact e e' he' with rfl | ⟨hsame, hnot⟩
        · exact ho e' rfl hobj
        · exact absurd (ho e rfl (hsame.symm.trans hobj)) hnot
    intro e he hobj
    exact ((keyPass_spec (d := absent) hstep keys
      fun e he hobj => ⟨h.fresh e he hobj, hP hk e he hobj⟩).1 e he hobj).1
  · rw [(keyPass_of_not_mem hk _).1]
    exact h.fresh

variable {keys : List K} {extraCount : ℤ}

theorem Unfilled.reserveRead (h : Unfilled k obj m)
    (htime : InTime k obj m now (.reserveRead keys extraCount)) :
    Unfilled k obj (m.reserveRead now keys extraCount).2 := by
  refine ⟨h.made, h.of_pass (P := fun e => now < e.writeLock.expirationMs) keys
    (fun e e' he' => ?_) htime⟩
  by_cases havail : e.availableForRead now = true
  · simp only [stepEntry, reserveReadKey, havail, Bool.not_true, Bool.false_eq_true, if_false,
      some.injEq] at he'
    refine .inr ⟨by rw [← he'], fun hopen => ?_⟩
    simp [availableForRead, locked_of_fresh hopen.1, hopen.2] at havail
  · simp only [stepEntry, reserveReadKey, havail, Bool.not_false, if_true, some.injEq] at he'
    exact .inl he'.symm

theorem Unfilled.finishRead (h : Unfilled k obj m) (keys : List K) (extraCount : ℤ) :
    Unfilled k obj (m.finishRead now keys extraCount).2 := by
  refine ⟨h.made, h.of_pass (P := fun _ => True) keys (fun e e' he' => ?_)
    fun _ _ _ _ => trivial⟩
  rcases finishReadKey_cases now (1 + validateExtraCount extraCount) e with
    hact | ⟨_, hread, hact | hact⟩ <;> simp only [stepEntry, hact] at he'
  · exact .inl (some.inj he').symm
  · cases he'
  · obtain rfl := some.inj he'
    refine .inr ⟨rfl, fun hopen => ?_⟩
    rw [hopen.1.read_unlocked] at hread
    cases hread

theorem Unfilled.finishWrite (h : Unfilled k obj m)
    (htime : InTime k obj m now (.finishWrite keys)) :
    Unfilled k obj (m.finishWrite now keys).2 := by
  refine ⟨h.made, h.of_pass (P := fun e => e.writeLock.expirationMs ≤ now) keys
    (fun e e' he' => ?_) htime⟩
  rcases finishWriteKey_cases now e with hact | ⟨hwrite, _, hact⟩ <;>
    simp only [stepEntry, hact] at he'
  · exact .inl (some.inj he').symm
  · obtain rfl := some.inj he'
    refine .inr ⟨rfl, fun hopen => ?_⟩
    rw [locked_of_fresh hopen.1, decide_eq_true_iff] at hwrite
    exact absurd hopen.2 (not_le.mpr hwrite)

theorem Unfilled.finishWriteAndReserveRead (h : Unfilled k obj m)
    (htime : InTime k obj m now (.finishWriteAndReserveRead keys extraCount)) :
    Unfilled k obj (m.finishWriteAndReserveRead now keys extraCount).2 := by
  refine ⟨h.made, h.of_pass (P := fun e => e.writeLock.expirationMs ≤ now) keys
    (fun e e' he' => ?_) htime⟩
  rcases finishWriteAndReserveReadKey_cases now (1 + validateExtraCount extraCount) e with
    hact | ⟨hwrite, _, hact⟩ <;> simp only [stepEntry, hact] at he'
  · exact .inl (some.inj he').symm
  · obtain rfl := some.inj he'
    refine .inr ⟨rfl, fun hopen => ?_⟩
    rw [locked_of_fresh hopen.1, decide_eq_true_iff] at hwrite
    exact absurd hopen.2 (not_le.mpr hwrite)

theorem Unfilled.delete (h : Unfilled k obj m) (keys : List K) :
    Unfilled k obj (m.delete now keys).2 := by
  refine ⟨h.made, h.of_pass (P := fun _ => True) keys (fun e e' he' => .inl ?_)
    fun _ _ _ _ => trivial⟩
  rcases deleteKey_cases now e with hact | ⟨_, _, hact⟩ <;> simp only [stepEntry, hact] at he'
  · exact (some.inj he').symm
  · cases he'

theorem Unfilled.clear (h : Unfilled k obj m) (force : Bool) : Unfilled k obj (m.clear now force) := by
  refine ⟨?_, fun e he => h.fresh e (get?_of_clear he)⟩
  unfold L1Manager.clear
  dsimp only
  split_ifs <;> exact h.made

theorem Unfilled.reserveWrite (h : Unfilled k obj m) (granted : Bool) (keys : List K)
    (isTemporary : List Bool) (mode : WriteMode) :
    Unfilled k obj (m.reserveWrite now granted keys isTemporary mode).2 := by
  obtain ⟨needs, hmanager, _, hout⟩ := m.reserveWrite_spec now granted keys isTemporary mode
  refine ⟨?_, fun e' he' hobj => ?_⟩
  · rw [hmanager]
    exact Nat.lt_add_right _ h.made
  · have hk := hout k
    rw [mem_def.mp he'] at hk
    rcases hk.origin with ⟨e, n, he, rfl, havail, _⟩ | ⟨_, i, isTemp, _, rfl⟩
    · have hfresh := h.fresh e he hobj
      cases n with
      | zero => exact hfresh
      | succ n =>
        have hopen := havail n.succ_pos
        simp [availableForWrite, hfresh.temporary] at hopen
    · exact absurd (Nat.le_add_right _ i) (not_le.mpr (hobj ▸ h.made))

theorem Unfilled.step (h : Unfilled k obj m) {op : L1Step K} (htime : InTime k obj m now op) :
    Unfilled k obj (m.step now op) := by
  cases op with
  | advance ms => exact h
  | reserveRead keys extraCount => exact h.reserveRead htime
  | unsafeRead keys => exact h
  | finishRead keys extraCount => exact h.finishRead keys extraCount
  | reserveWrite granted keys isTemporary mode => exact h.reserveWrite granted keys isTemporary mode
  | finishWrite keys => exact h.finishWrite htime
  | finishWriteAndReserveRead keys extraCount => exact h.finishWriteAndReserveRead htime
  | delete keys => exact h.delete keys
  | clear force => exact h.clear force

theorem unfilled_reserveWrite {granted : Bool}
    (h : (m.reserveWrite now granted keys (replicate keys.length true) .new).1.get? k =
      some (.success, some obj)) :
    Unfilled k obj (m.reserveWrite now granted keys (replicate keys.length true) .new).2 := by
  obtain ⟨needs, hmanager, hneeds, hout⟩ :=
    m.reserveWrite_spec now granted keys (replicate keys.length true) .new
  have hk := hout k
  rw [h] at hk
  generalize hget : (m.reserveWrite now granted keys (replicate keys.length true) .new).2.objects.get? k
    = o' at hk
  generalize m.objects.get? k = o at hk
  generalize hreply : some (L1Error.success, some obj) = r at hk
  cases hk with
  | untouched hr => exact absurd ⟨_, hreply.symm⟩ hr
  | @allocated i isTemp hi =>
    obtain rfl : obj = m.memoryManager.created + i := by simpa using hreply
    obtain ⟨hlt, _⟩ := List.getElem?_eq_some_iff.mp hi
    obtain rfl := eq_of_mem_replicate (of_mem_zip (hneeds _ (mem_of_getElem? hi))).2
    refine ⟨by rw [hmanager]; exact Nat.add_lt_add_left hlt _, fun e he _ => ?_⟩
    obtain rfl := some.inj (hget.symm.trans he)
    exact PrefetchState.fresh_newEntry m now i
  | relocked n hnew _ _ => exact absurd rfl hnew

end L1Manager

namespace PrefetchState

variable {K : Type} [DecidableEq K] (s : PrefetchState K)

def FailedLoad (k : K) (obj : MemoryObj) : Prop :=
  s.progress ≠ .running ∧ s.request.writeReservedObjs.get? k = some obj ∧
    k ∉ (resultBitmap s.request).gather s.request.keys

instance (s : PrefetchState K) (k : K) (obj : MemoryObj) : Decidable (s.FailedLoad k obj) :=
  inferInstanceAs (Decidable (_ ≠ _ ∧ _ = _ ∧ ¬ _ ∈ _))

def callOf : PrefetchEvent K → Option (L1Step K)
  | .other op => some op
  | .call =>
      match s.progress with
      | .closing (op :: _) _ => some op
      | _ => none
  | _ => none

def readResults (ev : PrefetchEvent K) : Dict K L1OperationResult :=
  match s.callOf ev with
  | some (.reserveRead keys extraCount) => (s.l1.reserveRead s.now keys extraCount).1
  | _ => .empty

def enqueued (ev : PrefetchEvent K) : List K :=
  (StoreListener.heard ((s.exec ev).l1.notifications.drop s.l1.notifications.length)).pendingKeys

def Exposes (k : K) (obj : MemoryObj) (s : PrefetchState K) (ev : PrefetchEvent K) : Prop :=
  (s.readResults ev).get? k = some (.success, some obj) ∨
    (s.l1.objects.get? k).map memoryObj = some obj ∧ k ∈ s.enqueued ev

instance (k : K) (obj : MemoryObj) (s : PrefetchState K) (ev : PrefetchEvent K) :
    Decidable (Exposes k obj s ev) :=
  inferInstanceAs (Decidable (_ = _ ∨ _ = _ ∧ _ ∈ _))

def WellTimed (k : K) (obj : MemoryObj) (s : PrefetchState K) (ev : PrefetchEvent K) : Prop :=
  ∀ op ∈ s.callOf ev, InTime k obj s.l1 s.now op

instance (k : K) (obj : MemoryObj) (s : PrefetchState K) (ev : PrefetchEvent K) :
    Decidable (WellTimed k obj s ev) :=
  inferInstanceAs (Decidable (∀ op ∈ _, _))

-- what a step does to L1 and to the reserved buffers, and the call it makes
inductive L1Effect (l1 : L1Manager K) (now : ℕ) (objs : Dict K MemoryObj) :
    L1Manager K → Dict K MemoryObj → Option (L1Step K) → Prop where
  | idle : L1Effect l1 now objs l1 objs none
  | called (op : L1Step K) : L1Effect l1 now objs (l1.step now op) objs (some op)
  | reserved (granted : Bool) (keys : List K) : L1Effect l1 now objs
      (l1.reserveWrite now granted keys (replicate keys.length true) .new).2
      ((reservedOf (l1.reserveWrite now granted keys (replicate keys.length true) .new).1).foldl
        (fun d p => d.set p.1 p.2) objs) none

variable {s : PrefetchState K} {k : K} {obj : MemoryObj}

theorem effect_reserveBuffers (loadPlan trimmedPlan : Dict ℕ Bitmap) (granted : Bool) :
    L1Effect s.l1 s.now s.request.writeReservedObjs
      (s.reserveBuffers loadPlan trimmedPlan granted).l1
      (s.reserveBuffers loadPlan trimmedPlan granted).request.writeReservedObjs none := by
  simp only [reserveBuffers, unlockUnneededKeys, recordReservations]
  exact .reserved granted _

theorem effect_transition (granted : Bool) :
    L1Effect s.l1 s.now s.request.writeReservedObjs (s.transitionToLoadPhase granted).l1
      (s.transitionToLoadPhase granted).request.writeReservedObjs none := by
  have hbuffers := fun loadPlan trimmedPlan =>
    s.enterLoadPhase.effect_reserveBuffers loadPlan trimmedPlan granted
  simp only [transitionToLoadPhase]
  split_ifs
  · exact .idle
  · simp only [completeAfter]
    exact hbuffers _ _
  · simp only [submitLoadTasks]
    exact hbuffers _ _

theorem effect_exec (ev : PrefetchEvent K) :
    L1Effect s.l1 s.now s.request.writeReservedObjs (s.exec ev).l1
      (s.exec ev).request.writeReservedObjs (s.callOf ev) := by
  cases ev with
  | lookupDone a result granted =>
    simp only [exec, processLookupCompletion, callOf]
    split_ifs
    · exact .idle
    · exact (s.recordLookup a result).effect_transition granted
    · exact .idle
    · exact .idle
  | loadDone a result =>
    simp only [exec, processLoadCompletion, callOf]
    split_ifs <;> exact .idle
  | call =>
    cases hp : s.progress with
    | closing calls hits =>
      cases calls with
      | nil =>
        simp only [exec, callOf, hp]
        exact .idle
      | cons op calls =>
        simp only [exec, callOf, hp]
        exact .called op
    | _ =>
      simp only [exec, callOf, hp]
      exact .idle
  | other op => exact .called op

variable {ev : PrefetchEvent K}

theorem mem_enqueued :
    k ∈ s.enqueued ev ↔ ∃ keys, s.callOf ev = some (.finishWrite keys) ∧ k ∈ keys ∧
      ∃ e, s.l1.objects.get? k = some e ∧ e.writeLock.isLocked s.now = true ∧
        e.readLock.isLocked s.now = false := by
  have heffect := s.effect_exec ev
  rw [enqueued]
  generalize hcall : s.callOf ev = call at heffect
  generalize (s.exec ev).l1 = l1' at heffect
  generalize (s.exec ev).request.writeReservedObjs = objs' at heffect
  cases heffect with
  | idle => simp [StoreListener.heard]
  | reserved granted keys =>
    obtain ⟨ns, hns, hheard⟩ := s.l1.notifications_step s.now
      (.reserveWrite granted keys (replicate keys.length true) .new)
    simp only [step] at hns
    rw [hns, drop_left, hheard]
    simp [announced]
  | called op =>
    obtain ⟨ns, hns, hheard⟩ := s.l1.notifications_step s.now op
    rw [hns, drop_left, hheard]
    cases op with
    | finishWrite keys =>
      have hpass : k ∈ s.l1.announced s.now (.finishWrite keys) ↔ _ :=
        mem_successfulKeys (d := L1Error.keyNotExist)
          (f := finishWriteKey s.now) s.l1.objects
      rw [hpass]
      cases he : s.l1.objects.get? k with
      | none => simp [L1Manager.succeeds]
      | some e => simp [succeeds_finishWriteKey]
    | _ => simp [announced]

theorem reserveRead_get? (m : L1Manager K) (now : ℕ) (keys : List K) (extraCount : ℤ) :
    (m.reserveRead now keys extraCount).1.get? k = some (.success, some obj) ↔
      k ∈ keys ∧ ∃ e, m.objects.get? k = some e ∧ e.memoryObj = obj ∧
        e.writeLock.isLocked now = false := by
  change (m.reserveReadPass now keys extraCount).ret.get? k = _ ↔ _
  constructor
  · intro hret
    have hk : k ∈ keys := by
      by_contra hk
      have hnone := (keyPass_of_not_mem (d := (L1Error.keyNotExist, none))
        (f := reserveReadKey now (1 + validateExtraCount extraCount)) hk m.objects).2
      exact absurd (hnone.symm.trans hret) (by simp)
    cases he : m.objects.get? k with
    | none =>
      have := m.reserveReadPass_absent now keys extraCount he _ hret
      simp at this
    | some e =>
      have hreply := m.reserveReadPass_spec now keys extraCount he _ hret
      split_ifs at hreply with havail
      · refine ⟨hk, e, rfl, ?_, by simpa [availableForRead] using havail⟩
        simpa using hreply.symm
      · simp at hreply
  · rintro ⟨hk, e, he, rfl, hunlocked⟩
    obtain ⟨r, hr⟩ := keyPass_ret_isSome (d := (L1Error.keyNotExist, none))
      (f := reserveReadKey now (1 + validateExtraCount extraCount)) hk m.objects
    have hreply := m.reserveReadPass_spec now keys extraCount he r hr
    rw [if_pos (by simp [availableForRead, hunlocked])] at hreply
    exact hr.trans (congrArg some hreply)

theorem not_exposes (hunfilled : Unfilled k obj s.l1) (htimed : WellTimed k obj s ev) :
    ¬ Exposes k obj s ev := by
  rintro (hread | ⟨hholds, henqueue⟩)
  · rw [readResults] at hread
    cases hcall : s.callOf ev with
    | none => simp [hcall] at hread
    | some op =>
      cases op with
      | reserveRead keys extraCount =>
        rw [hcall] at hread
        obtain ⟨hk, e, he, hobj, hunlocked⟩ := (reserveRead_get? _ _ _ _).mp hread
        rw [locked_of_fresh (hunfilled.fresh e he hobj), decide_eq_false_iff_not] at hunlocked
        exact hunlocked (htimed _ hcall hk e he hobj)
      | _ => simp [hcall] at hread
  · obtain ⟨keys, hcall, hk, e, he, hlocked, _⟩ := mem_enqueued.mp henqueue
    rw [he, map_some, some.injEq] at hholds
    rw [locked_of_fresh (hunfilled.fresh e he hholds), decide_eq_true_iff] at hlocked
    exact absurd (htimed _ hcall hk e he hholds) (not_le.mpr hlocked)

theorem get?_recorded {ret : Dict K L1OperationResult} {objs : Dict K MemoryObj}
    (h : ((reservedOf ret).foldl (fun d p => d.set p.1 p.2) objs).get? k = some obj) :
    objs.get? k = some obj ∨ ret.get? k = some (.success, some obj) := by
  have hfold : ∀ (ps : List (K × MemoryObj)) (d : Dict K MemoryObj),
      (ps.foldl (fun d p => d.set p.1 p.2) d).get? k = some obj →
        d.get? k = some obj ∨ (k, obj) ∈ ps := by
    intro ps
    induction ps with
    | nil => exact fun d hd => .inl hd
    | cons p ps ih =>
      intro d hd
      rcases ih _ hd with hset | hmem
      · rw [Dict.get?_set] at hset
        split_ifs at hset with hp
        · exact .inr (mem_cons.mpr (.inl (Prod.ext hp.symm (some.inj hset).symm)))
        · exact .inl hset
      · exact .inr (mem_cons_of_mem p hmem)
  refine (hfold _ _ h).imp_right fun hmem => ?_
  rw [reservedOf_eq, ← Dict.get?_eq_some_iff, Dict.get?_filterMapValues, bind_eq_some_iff] at hmem
  obtain ⟨⟨err, o⟩, hret, hobj⟩ := hmem
  split_ifs at hobj with herr
  dsimp only at herr hobj
  rw [hret, herr, hobj]

theorem unfilled_exec (ev : PrefetchEvent K)
    (h : s.request.writeReservedObjs.get? k = some obj → Unfilled k obj s.l1)
    (htimed : s.request.writeReservedObjs.get? k = some obj → WellTimed k obj s ev) :
    (s.exec ev).request.writeReservedObjs.get? k = some obj → Unfilled k obj (s.exec ev).l1 := by
  have heffect := s.effect_exec ev
  generalize hcall : s.callOf ev = call at heffect
  generalize (s.exec ev).l1 = l1' at heffect ⊢
  generalize (s.exec ev).request.writeReservedObjs = objs' at heffect ⊢
  cases heffect with
  | idle => exact h
  | called op => exact fun hreserved => (h hreserved).step (htimed hreserved op hcall)
  | reserved granted keys =>
    intro hreserved
    rcases get?_recorded hreserved with hbefore | hnow
    · exact (h hbefore).reserveWrite granted keys _ .new
    · exact unfilled_reserveWrite hnow

-- from the reservation of the buffer on
def FailedUnread (start : PrefetchState K) (events : List (PrefetchEvent K)) : Prop :=
  ∀ k obj, FailedLoad (Execution.final exec start events) k obj →
    Execution.Along exec (fun s ev => s.request.writeReservedObjs.get? k = some obj →
      ¬ Exposes k obj s ev) start events

def FailedTimed (start : PrefetchState K) (events : List (PrefetchEvent K)) : Prop :=
  ∀ k obj, FailedLoad (Execution.final exec start events) k obj →
    Execution.Along exec (fun s ev => s.request.writeReservedObjs.get? k = some obj →
      WellTimed k obj s ev) start events

theorem failedUnread_of_timed (l1 : L1Manager K) (now : ℕ) (adapters : List AdapterDescriptor)
    (keys : List K) (extraCount : ℤ) (events : List (PrefetchEvent K))
    (htimed : FailedTimed (startLookupPhase l1 now adapters keys extraCount) events) :
    FailedUnread (startLookupPhase l1 now adapters keys extraCount) events := by
  intro k obj hfailed
  refine Execution.along_of_invariant
    (I := fun s => s.request.writeReservedObjs.get? k = some obj → Unfilled k obj s.l1)
    (fun s ev h hev => unfilled_exec ev h hev)
    (fun s ev h hev hreserved => not_exposes (h hreserved) (hev hreserved)) ?_ (htimed k obj hfailed)
  intro hreserved
  cases hreserved

def lateCleanUp : List (PrefetchEvent ℕ) :=
  [.lookupDone 0 ((Bitmap.ofSize 1).set 0) true, .other (.reserveRead [7] 0), .other (.advance 600000),
    .loadDone 0 (Bitmap.ofSize 1), .call, .call]

theorem failedUnread_lateCleanUp :
    FailedUnread (startLookupPhase (init 600 300) 0 [⟨0⟩] [7] 0) lateCleanUp := by
  apply failedUnread_of_timed
  intro k obj hfailed
  have hmem := (Dict.get?_eq_some_iff _ _ _).mp hfailed.2.1
  rw [show (Execution.final exec (startLookupPhase (init 600 300) 0 [⟨0⟩] [7] 0)
    lateCleanUp).request.writeReservedObjs.items = [(7, 0)] from by decide +kernel,
    mem_singleton] at hmem
  obtain ⟨rfl, rfl⟩ := Prod.mk.inj hmem
  decide +kernel

def failedLoadRun : List (PrefetchEvent ℕ) :=
  [.lookupDone 0 ((Bitmap.ofSize 1).set 0) true, .loadDone 0 (Bitmap.ofSize 1), .call,
    .other (.reserveRead [7] 0), .call]

theorem not_failedUnread_failedLoad :
    ¬ FailedUnread (startLookupPhase (init 600 300) 0 [⟨0⟩] [7] 0) failedLoadRun := by
  intro h
  exact absurd (h 7 0 (by decide +kernel)) (by decide +kernel)

end PrefetchState

end LMCache
