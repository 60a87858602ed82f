import LMCache.Distributed.ReadLedger
import LMCache.Distributed.StorageControllers.PrefetchAccounting

namespace LMCache

open L1Manager Function List PrefetchState TTLLock

namespace L1Step

variable {K : Type}

def Settles : L1Step K → Prop
  | .finishWrite _ | .finishWriteAndReserveRead _ _ | .finishRead _ _ | .delete _ => True
  | _ => False

end L1Step

namespace L1Manager

variable {K : Type} [DecidableEq K]

def replay (now : ℕ) (k : K) (o : Option L1ObjectState) : L1Step K → Option L1ObjectState
  | .finishWrite ks => (stepEntry (finishWriteKey now))^[ks.count k] o
  | .finishWriteAndReserveRead ks extraCount =>
      (stepEntry (finishWriteAndReserveReadKey now (1 + validateExtraCount extraCount)))^[ks.count k] o
  | .finishRead ks extraCount =>
      (stepEntry (finishReadKey now (1 + validateExtraCount extraCount)))^[ks.count k] o
  | .delete ks => (stepEntry (deleteKey now))^[ks.count k] o
  | _ => o

theorem get?_step (m : L1Manager K) (now : ℕ) {op : L1Step K} (h : op.Settles) (k : K) :
    (m.step now op).objects.get? k = replay now k (m.objects.get? k) op := by
  cases op with
  | finishWrite ks | finishRead ks extraCount =>
    exact (keyPass_count (d := L1Error.keyNotExist) ks k m.objects).1
  | finishWriteAndReserveRead ks extraCount =>
    exact (keyPass_count (d := (L1Error.keyNotExist, none)) ks k m.objects).1
  | delete ks => exact (keyPass_count (d := L1Error.keyNotExist) ks k m.objects).1
  | _ => exact h.elim

variable {act : L1ObjectState → Verdict R}

theorem iterate_of_not_mem {ks : List K} {k : K} (hk : k ∉ ks) (o : Option L1ObjectState) :
    (stepEntry act)^[ks.count k] o = o := by
  rw [count_eq_zero_of_not_mem hk, iterate_zero_apply]

theorem replay_of_not_mem {now : ℕ} {k : K} (op : L1Step K) (hk : k ∉ op.keys)
    (o : Option L1ObjectState) : replay now k o op = o := by
  cases op with
  | finishWrite ks => exact iterate_of_not_mem hk o
  | finishWriteAndReserveRead ks extraCount => exact iterate_of_not_mem hk o
  | finishRead ks extraCount => exact iterate_of_not_mem hk o
  | delete ks => exact iterate_of_not_mem hk o
  | _ => rfl

theorem iterate_count {ks : List K} {k : K} (hk : k ∈ ks) {o o' : Option L1ObjectState}
    (hfirst : stepEntry act o = o') (hagain : stepEntry act o' = o') :
    (stepEntry act)^[ks.count k] o = o' := by
  obtain ⟨n, hn⟩ := Nat.exists_eq_succ_of_ne_zero (count_pos_iff.mpr hk).ne'
  rw [hn, iterate_succ_apply, hfirst]
  exact iterate_fixed hagain n

theorem replay_none (now : ℕ) (k : K) (op : L1Step K) : replay now k none op = none := by
  cases op with
  | finishWrite ks => exact iterate_fixed rfl _
  | finishWriteAndReserveRead ks extraCount => exact iterate_fixed rfl _
  | finishRead ks extraCount => exact iterate_fixed rfl _
  | delete ks => exact iterate_fixed rfl _
  | _ => rfl

end L1Manager

namespace L1ObjectState

variable {now total : ℕ} {e : L1ObjectState}

structure Fresh (e : L1ObjectState) : Prop where
  temporary : e.isTemporary = true
  once : e.writeLock.counter = 1
  unread : e.readLock.counter = 0

def Ready (now : ℕ) (e : L1ObjectState) : Prop :=
  e.writeLock.isLocked now = true ∧ 0 < e.readLock.ttlMs

def reading (now total : ℕ) (e : L1ObjectState) : L1ObjectState :=
  { e with
    writeLock := e.writeLock.unlock
    readLock := e.readLock.lockTimes now total }

theorem Fresh.held_read (h : e.Fresh) (now : ℕ) : e.readLock.held now = 0 := by
  rw [held, h.unread, ite_self]

theorem Fresh.read_unlocked (h : e.Fresh) (now : ℕ) : e.readLock.isLocked now = false :=
  isLocked_eq_false_iff.mpr (h.held_read now)

theorem Fresh.write_unlock (h : e.Fresh) (now : ℕ) : e.writeLock.unlock.isLocked now = false := by
  rw [isLocked_eq_false_iff, held, unlock, h.once]
  exact ite_self _

theorem Fresh.stepEntry_reading (h : e.Fresh) (hlocked : e.writeLock.isLocked now = true) :
    stepEntry (finishWriteAndReserveReadKey now total) (some e) = some (e.reading now total) := by
  simp only [stepEntry, finishWriteAndReserveReadKey, hlocked, h.read_unlocked]
  rfl

theorem Fresh.stepEntry_again (h : e.Fresh) :
    stepEntry (finishWriteAndReserveReadKey now total)
      (some (e.reading now total)) = some (e.reading now total) := by
  have hunlocked : (e.reading now total).writeLock.isLocked now = false := h.write_unlock now
  simp only [stepEntry, finishWriteAndReserveReadKey, hunlocked]
  rfl

theorem stepEntry_expired (hexpired : e.writeLock.isLocked now = false) :
    stepEntry (finishWriteAndReserveReadKey now total) (some e) = some e := by
  simp only [stepEntry, finishWriteAndReserveReadKey, hexpired]
  rfl

theorem Fresh.held_reading (h : e.Fresh) (httl : 0 < e.readLock.ttlMs) :
    (e.reading now total).readLock.held now = total := by
  change (e.readLock.lockTimes now total).held now = total
  rw [held_lockTimes total httl, h.held_read, Nat.zero_add]

theorem held_reading_zero (n : ℕ) (httl : e.readLock.ttlMs = 0) :
    (e.reading now (n + 1)).readLock.held now = 0 := by
  change (e.readLock.lockTimes now (n + 1)).held now = 0
  rw [held, lockTimes_expirationMs, httl]
  exact if_neg (lt_irrefl now)

theorem stepEntry_finishRead_refused (hread : e.readLock.held now = 0) :
    stepEntry (finishReadKey now total) (some e) = some e := by
  have hunlocked := isLocked_eq_false_iff.mpr hread
  simp only [stepEntry, finishReadKey, hunlocked]
  cases e.writeLock.isLocked now
  · rfl
  · rfl

theorem Fresh.stepEntry_finishRead (h : e.Fresh) (n : ℕ) (httl : 0 < e.readLock.ttlMs) :
    stepEntry (finishReadKey now (n + 1)) (some (e.reading now (n + 1))) =
      none := by
  have hheld : (e.reading now (n + 1)).readLock.held now = n + 1 := h.held_reading httl
  have hwrite : (e.reading now (n + 1)).writeLock.isLocked now = false := h.write_unlock now
  have hread : (e.reading now (n + 1)).readLock.isLocked now = true :=
    isLocked_iff.mpr (by omega)
  have hlast : ((e.reading now (n + 1)).readLock.unlockTimes (n + 1)).isLocked now = false := by
    rw [isLocked_eq_false_iff, held_unlockTimes, hheld, Nat.sub_self]
  have htemporary : (e.reading now (n + 1)).isTemporary = true := h.temporary
  simp only [stepEntry, finishReadKey, hwrite, hread, hlast, htemporary]
  rfl

end L1ObjectState

namespace PrefetchState

open L1Manager (replay)

variable {K : Type} [DecidableEq K]

section Entries

variable {now : ℕ} {loaded failed nonPrefix : List K} {k : K} {e : L1ObjectState} {extraCount : ℤ}

theorem replay_guarded (op : L1Step K) (ks : List K) (hkeys : op.keys = ks)
    (o : Option L1ObjectState) :
    (if ks.isEmpty then [] else [op]).foldl (replay now k) o = replay now k o op := by
  split_ifs with hempty
  · rw [replay_of_not_mem]
    · rfl
    · rw [hkeys, isEmpty_iff.mp hempty]
      exact not_mem_nil
  · rfl

theorem replay_cleanUp_of_not_mem {ks : List K} (hk : k ∉ ks) (o : Option L1ObjectState) :
    (cleanUp ks).foldl (replay now k) o = o := by
  rw [cleanUp]
  split_ifs
  · rfl
  · rw [foldl_cons, replay_of_not_mem (.finishWrite ks) hk, foldl_cons,
      replay_of_not_mem (.delete ks) hk, foldl_nil]

theorem replay_cleanUp {ks : List K} (hk : k ∈ ks) (h : e.Fresh) :
    (cleanUp ks).foldl (replay now k) (some e) = none := by
  have hne : ¬ ks.isEmpty = true := fun hempty => ne_nil_of_mem hk (isEmpty_iff.mp hempty)
  have hdrop : ∀ e' : L1ObjectState, e'.readLock.isLocked now = false →
      e'.writeLock.isLocked now = false →
      replay now k (some e') (.delete ks) = none := by
    intro e' hread hwrite
    refine iterate_count hk ?_ rfl
    simp only [stepEntry, deleteKey, hread, hwrite]
    rfl
  rw [cleanUp, if_neg hne, foldl_cons, foldl_cons, foldl_nil]
  cases hlocked : e.writeLock.isLocked now with
  | false =>
    have hkept : replay now k (some e) (.finishWrite ks) = some e := by
      refine iterate_fixed ?_ _
      simp only [stepEntry, finishWriteKey, hlocked]
      rfl
    rw [hkept]
    exact hdrop e (h.read_unlocked now) hlocked
  | true =>
    have hfinished : replay now k (some e) (.finishWrite ks) =
        some { e with writeLock := e.writeLock.unlock } := by
      refine iterate_count hk ?_ ?_
      · simp only [stepEntry, finishWriteKey, hlocked, h.read_unlocked]
        rfl
      · simp only [stepEntry, finishWriteKey, h.write_unlock]
        rfl
    rw [hfinished]
    exact hdrop _ (h.read_unlocked now) (h.write_unlock now)

theorem replay_finalCalls (o : Option L1ObjectState) :
    (finalCalls loaded failed nonPrefix extraCount).foldl (replay now k) o =
      replay now k ((cleanUp failed).foldl (replay now k)
        (replay now k o (.finishWriteAndReserveRead loaded extraCount)))
        (.finishRead nonPrefix extraCount) := by
  rw [finalCalls, foldl_append, foldl_append,
    replay_guarded (.finishWriteAndReserveRead loaded extraCount) loaded rfl,
    replay_guarded (.finishRead nonPrefix extraCount) nonPrefix rfl]

theorem replay_failed (h : e.Fresh) (hload : k ∉ loaded) (hfail : k ∈ failed) :
    (finalCalls loaded failed nonPrefix extraCount).foldl (replay now k) (some e) = none := by
  rw [replay_finalCalls, replay_of_not_mem (.finishWriteAndReserveRead loaded extraCount)
    hload, replay_cleanUp hfail h]
  exact replay_none now k _

theorem replay_ready (h : e.Fresh) (hready : e.Ready now) (hload : k ∈ loaded)
    (hfail : k ∉ failed) :
    (finalCalls loaded failed nonPrefix extraCount).foldl (replay now k) (some e) =
      if k ∈ nonPrefix then none else some (e.reading now (1 + validateExtraCount extraCount)) := by
  have hreading : replay now k (some e) (.finishWriteAndReserveRead loaded extraCount) =
      some (e.reading now (1 + validateExtraCount extraCount)) :=
    iterate_count hload (h.stepEntry_reading hready.1) h.stepEntry_again
  rw [replay_finalCalls, hreading, replay_cleanUp_of_not_mem hfail]
  split_ifs with hpast
  · rw [Nat.add_comm]
    exact iterate_count hpast (by rw [Nat.add_comm]; exact h.stepEntry_finishRead _ hready.2) rfl
  · exact replay_of_not_mem (.finishRead nonPrefix extraCount) hpast _

theorem replay_expired (nonPrefix : List K) (extraCount : ℤ) (h : e.Fresh) (hready : ¬ e.Ready now)
    (hload : k ∈ loaded) (hfail : k ∉ failed) :
    ∃ e', (finalCalls loaded failed nonPrefix extraCount).foldl (replay now k) (some e) = some e' ∧
      e'.isTemporary = true ∧ e'.availableForRead now = true ∧ e'.readLock.held now = 0 := by
  have hstays : ∀ e' : L1ObjectState, e'.readLock.held now = 0 →
      replay now k (some e') (.finishRead nonPrefix extraCount) = some e' := fun e' hheld =>
    iterate_fixed (e'.stepEntry_finishRead_refused hheld) _
  rw [replay_finalCalls]
  cases hlocked : e.writeLock.isLocked now with
  | false =>
    have hkept : replay now k (some e) (.finishWriteAndReserveRead loaded extraCount) = some e :=
      iterate_fixed (L1ObjectState.stepEntry_expired hlocked) _
    rw [hkept, replay_cleanUp_of_not_mem hfail, hstays e (h.held_read now)]
    refine ⟨e, rfl, h.temporary, ?_, h.held_read now⟩
    rw [L1ObjectState.availableForRead, hlocked, Bool.not_false]
  | true =>
    have hzero : e.readLock.ttlMs = 0 := Nat.eq_zero_of_not_pos fun hpos => hready ⟨hlocked, hpos⟩
    have hheld : (e.reading now (1 + validateExtraCount extraCount)).readLock.held now = 0 := by
      rw [Nat.add_comm]
      exact L1ObjectState.held_reading_zero _ hzero
    have hreading : replay now k (some e) (.finishWriteAndReserveRead loaded extraCount) =
        some (e.reading now (1 + validateExtraCount extraCount)) :=
      iterate_count hload (h.stepEntry_reading hlocked) h.stepEntry_again
    rw [hreading, replay_cleanUp_of_not_mem hfail, hstays _ hheld]
    refine ⟨_, rfl, h.temporary, ?_, hheld⟩
    exact congrArg not (h.write_unlock now)

end Entries

variable (s : PrefetchState K)

def remaining : List (L1Step K) :=
  match s.progress with
  | .closing calls _ => calls
  | _ => []

def hits : ℕ :=
  match s.progress with
  | .running => 0
  | .closing _ prefixHits => prefixHits
  | .completed prefixHits => prefixHits

def due (k : K) : Option L1ObjectState :=
  s.remaining.foldl (replay s.now k) (s.l1.objects.get? k)

def behindGap (request : InFlightPrefetchRequest K) : List K :=
  ((resultBitmap request).and
    (Bitmap.ofPrefix request.keys.length (resultBitmap request).clo).not).gather request.keys

structure Backs (keys : List K) (extraCount : ℤ) (reserved : List K) (now : ℕ)
    (lookup : K → Option L1ObjectState) (prefixHits : ℕ) : Prop where
  held : ∀ k ∈ keys.take prefixHits, ∃ e, lookup k = some e ∧ e.writeLock.isLocked now = false ∧
    e.readLock.held now = 1 + validateExtraCount extraCount
  cleared : ∀ k ∈ reserved, k ∉ keys.take prefixHits → ∀ e, lookup k = some e →
    ¬ (e.isTemporary = true ∧ e.availableForRead now = true)

def Undisturbed : PrefetchEvent K → Prop
  | .other op => (∀ k ∈ s.request.keys, ¬ op.Touches k) ∧
      (s.progress = .running ∨ op.tick s.now = s.now)
  | _ => True

def LastLoad (adapterIndex : ℕ) : Prop :=
  s.request.phase = .planAndLoad ∧ adapterIndex ∈ s.request.pendingLoadTasks ∧
    (s.request.pendingLoadTasks.erase adapterIndex).isEmpty = true

def Timely : PrefetchEvent K → Prop
  | .loadDone adapterIndex result => s.LastLoad adapterIndex →
      (∀ k ∈ (resultBitmap (s.recordLoad adapterIndex result).request).gather s.request.keys,
        ∃ e, s.l1.objects.get? k = some e ∧ e.Ready s.now) ∧
      ∀ k ∈ s.request.keys.take (resultBitmap (s.recordLoad adapterIndex result).request).clo,
        k ∉ behindGap (s.recordLoad adapterIndex result).request
  | _ => True

structure Searching (s : PrefetchState K) : Prop where
  phase : s.request.phase = .lookup
  noLoads : s.request.pendingLoadTasks = []
  reserved : s.request.writeReservedKeys = []

structure Loading (s : PrefetchState K) : Prop where
  phase : s.request.phase = .planAndLoad
  planned : ∀ a bm i, s.request.loadPlan.get? a = some bm → bm.test i = true →
    ∃ k ∈ s.request.writeReservedKeys, s.request.keys[i]? = some k
  requested : ∀ k ∈ s.request.writeReservedKeys, k ∈ s.request.keys
  fresh : ∀ k ∈ s.request.writeReservedKeys, ∃ e, s.l1.objects.get? k = some e ∧ e.Fresh

structure Quiet (s : PrefetchState K) : Prop where
  phase : s.request.phase = .planAndLoad ∨ s.request.pendingLookupTasks = []
  noLoads : s.request.pendingLoadTasks = []

structure Winding (s : PrefetchState K) : Prop where
  ended : s.progress ≠ .running
  quiet : Quiet s
  settles : ∀ op ∈ s.remaining, op.Settles
  requested : ∀ k ∈ s.request.writeReservedKeys, k ∈ s.request.keys

variable {s : PrefetchState K} {keys : List K} {extraCount : ℤ} {calls : List (L1Step K)}
  {prefixHits : ℕ}

omit [DecidableEq K] in
theorem winding_completeAfter (hquiet : Quiet s) (hsettles : ∀ op ∈ calls, op.Settles)
    (hrequested : ∀ k ∈ s.request.writeReservedKeys, k ∈ s.request.keys) :
    Winding (s.completeAfter calls prefixHits) := by
  cases calls with
  | nil => exact ⟨by simp [completeAfter], ⟨hquiet.phase, hquiet.noLoads⟩, by simp [remaining,
      completeAfter], hrequested⟩
  | cons op calls => exact ⟨by simp [completeAfter], ⟨hquiet.phase, hquiet.noLoads⟩, hsettles,
      hrequested⟩

theorem due_completeAfter (k : K) :
    (s.completeAfter calls prefixHits).due k =
      calls.foldl (replay s.now k) (s.l1.objects.get? k) := by
  cases calls with
  | nil => rfl
  | cons op calls => rfl

omit [DecidableEq K] in
theorem hits_completeAfter : (s.completeAfter calls prefixHits).hits = prefixHits := by
  cases calls with
  | nil => rfl
  | cons op calls => rfl

omit [DecidableEq K] in
theorem Backs.congr {reserved : List K} {now : ℕ} {lookup lookup' : K → Option L1ObjectState}
    (h : Backs keys extraCount reserved now lookup prefixHits) (hsub : ∀ k ∈ reserved, k ∈ keys)
    (hsame : ∀ k ∈ keys, lookup' k = lookup k) :
    Backs keys extraCount reserved now lookup' prefixHits := by
  refine ⟨fun k hk => ?_, fun k hk hnot e he => ?_⟩
  · rw [hsame k (mem_of_mem_take hk)]
    exact h.held k hk
  · rw [hsame k (hsub k hk)] at he
    exact h.cleared k hk hnot e he

theorem Winding.exec (h : Winding s) {ev : PrefetchEvent K} (hev : s.Undisturbed ev) :
    Winding (s.exec ev) ∧ (s.exec ev).request = s.request ∧ (s.exec ev).now = s.now ∧
      (s.exec ev).hits = s.hits ∧ ∀ k ∈ s.request.keys, (s.exec ev).due k = s.due k := by
  cases ev with
  | lookupDone a result granted =>
    have hsame : s.exec (.lookupDone a result granted) = s := by
      refine processLookupCompletion_of_not_pending ?_
      rintro ⟨hlookup, hpending⟩
      rcases h.quiet.phase with hphase | hnone
      · simp [hphase] at hlookup
      · simp [hnone] at hpending
    rw [hsame]
    exact ⟨h, rfl, rfl, rfl, fun k _ => rfl⟩
  | loadDone a result =>
    have hsame : s.exec (.loadDone a result) = s := by
      refine processLoadCompletion_of_not_pending ?_
      simp [h.quiet.noLoads]
    rw [hsame]
    exact ⟨h, rfl, rfl, rfl, fun k _ => rfl⟩
  | call =>
    cases hp : s.progress with
    | running => exact absurd hp h.ended
    | completed hits =>
      have hsame : s.exec .call = s := by simp only [PrefetchState.exec, hp]
      rw [hsame]
      exact ⟨h, rfl, rfl, rfl, fun k _ => rfl⟩
    | closing calls hits =>
      cases calls with
      | nil =>
        have hsame : s.exec .call = s := by simp only [PrefetchState.exec, hp]
        rw [hsame]
        exact ⟨h, rfl, rfl, rfl, fun k _ => rfl⟩
      | cons op calls =>
        have hsettles := h.settles
        simp only [remaining, hp] at hsettles
        simp only [PrefetchState.exec, hp]
        refine ⟨winding_completeAfter ⟨h.quiet.phase, h.quiet.noLoads⟩
          (fun op' hop' => hsettles op' (mem_cons_of_mem op hop')) h.requested, rfl, rfl, ?_,
          fun k _ => ?_⟩
        · rw [hits_completeAfter, PrefetchState.hits, hp]
        · rw [due_completeAfter, due, remaining, hp, foldl_cons]
          exact congrArg (foldl (replay s.now k) · calls)
            (s.l1.get?_step s.now (hsettles op mem_cons_self) k)
  | other op =>
    have hnow : op.tick s.now = s.now := hev.2.resolve_left h.ended
    refine ⟨⟨h.ended, ⟨h.quiet.phase, h.quiet.noLoads⟩, h.settles, h.requested⟩, rfl, hnow, rfl,
      fun k hk => ?_⟩
    have hget : (s.l1.step s.now op).objects.get? k = s.l1.objects.get? k :=
      step_of_not_touches (hev.1 k hk)
    simp only [due, PrefetchState.exec, hnow, hget]
    rfl

theorem Loading.loaded_reserved (h : Loading s) {k : K}
    (hk : k ∈ (resultBitmap s.request).gather s.request.keys) :
    k ∈ s.request.writeReservedKeys := by
  obtain ⟨i, htest, hi⟩ := Bitmap.mem_gather.mp hk
  obtain ⟨a, bm, hbm, hplan⟩ := (resultBitmap_spec s.request).2 i htest
  obtain ⟨k', hk', hi'⟩ := h.planned a bm i hbm hplan
  exact Option.some.inj (hi.symm.trans hi') ▸ hk'

variable {request : InFlightPrefetchRequest K}

omit [DecidableEq K] in
theorem mem_loaded_of_mem_take {k : K} (hk : k ∈ request.keys.take (resultBitmap request).clo) :
    k ∈ (resultBitmap request).gather request.keys := by
  obtain ⟨_, hlead, _⟩ := (resultBitmap request).clo_spec
  obtain ⟨i, hi⟩ := mem_iff_getElem?.mp hk
  rw [getElem?_take] at hi
  split_ifs at hi with hlt
  exact Bitmap.mem_gather.mpr ⟨i, hlead i hlt, hi⟩

omit [DecidableEq K] in
theorem mem_behindGap {k : K} (hk : k ∈ (resultBitmap request).gather request.keys)
    (hnot : k ∉ request.keys.take (resultBitmap request).clo) : k ∈ behindGap request := by
  obtain ⟨i, htest, hi⟩ := Bitmap.mem_gather.mp hk
  have hlt : i < request.keys.length := (List.getElem?_eq_some_iff.mp hi).1
  have hpast : ¬ i < (resultBitmap request).clo := fun h =>
    hnot (mem_iff_getElem?.mpr ⟨i, by rw [getElem?_take, if_pos h, hi]⟩)
  refine Bitmap.mem_gather.mpr ⟨i, ?_, hi⟩
  rw [Bitmap.test_and, htest]
  simp [hlt, hpast]

section Due

variable {k : K} {e : L1ObjectState}

theorem mem_failed_iff {loaded : List K} (hk : k ∈ s.request.writeReservedKeys) :
    k ∈ s.request.writeReservedKeys.filter (fun k => decide (k ∉ loaded)) ↔ k ∉ loaded := by
  rw [mem_filter, decide_eq_true_eq, and_iff_right hk]

theorem due_finalizeLoad (k : K) : s.finalizeLoad.due k =
    (finalCalls ((resultBitmap s.request).gather s.request.keys)
      (s.request.writeReservedKeys.filter fun k =>
        decide (k ∉ (resultBitmap s.request).gather s.request.keys))
      (behindGap s.request) s.request.extraCount).foldl (replay s.now k) (s.l1.objects.get? k) :=
  due_completeAfter k

theorem Loading.due_ready (h : Loading s) (he : s.l1.objects.get? k = some e)
    (hready : e.Ready s.now) (hload : k ∈ (resultBitmap s.request).gather s.request.keys) :
    e.Fresh ∧ s.finalizeLoad.due k = if k ∈ behindGap s.request then none
      else some (e.reading s.now (1 + validateExtraCount s.request.extraCount)) := by
  have hreserved := h.loaded_reserved hload
  obtain ⟨e', he', hfresh⟩ := h.fresh k hreserved
  obtain rfl := Option.some.inj (he.symm.trans he')
  refine ⟨hfresh, ?_⟩
  rw [due_finalizeLoad, he]
  exact replay_ready hfresh hready hload fun hfail => (mem_failed_iff hreserved).mp hfail hload

theorem Loading.due_expired (h : Loading s) (he : s.l1.objects.get? k = some e)
    (hready : ¬ e.Ready s.now) (hload : k ∈ (resultBitmap s.request).gather s.request.keys) :
    ∃ e', s.finalizeLoad.due k = some e' ∧ e'.isTemporary = true ∧
      e'.availableForRead s.now = true ∧ e'.readLock.held s.now = 0 := by
  have hreserved := h.loaded_reserved hload
  obtain ⟨e', he', hfresh⟩ := h.fresh k hreserved
  obtain rfl := Option.some.inj (he.symm.trans he')
  rw [due_finalizeLoad, he]
  exact replay_expired (behindGap s.request) s.request.extraCount hfresh hready hload
    fun hfail => (mem_failed_iff hreserved).mp hfail hload

theorem Loading.due_failed (h : Loading s) (hk : k ∈ s.request.writeReservedKeys)
    (hload : k ∉ (resultBitmap s.request).gather s.request.keys) :
    s.finalizeLoad.due k = none := by
  obtain ⟨e, he, hfresh⟩ := h.fresh k hk
  rw [due_finalizeLoad, he]
  exact replay_failed hfresh hload ((mem_failed_iff hk).mpr hload)

end Due

theorem backs_finalCalls (h : Loading s) :
    Backs s.request.keys s.request.extraCount s.request.writeReservedKeys s.now
        s.finalizeLoad.due (resultBitmap s.request).clo ↔
      (∀ k ∈ (resultBitmap s.request).gather s.request.keys,
        ∃ e, s.l1.objects.get? k = some e ∧ e.Ready s.now) ∧
      ∀ k ∈ s.request.keys.take (resultBitmap s.request).clo, k ∉ behindGap s.request := by
  constructor
  · intro hbacks
    have hready : ∀ k ∈ (resultBitmap s.request).gather s.request.keys,
        ∃ e, s.l1.objects.get? k = some e ∧ e.Ready s.now := by
      intro k hload
      obtain ⟨e, he, _⟩ := h.fresh k (h.loaded_reserved hload)
      refine ⟨e, he, ?_⟩
      by_contra hexpired
      obtain ⟨e', hget, htemporary, havailable, hheld⟩ := h.due_expired he hexpired hload
      by_cases hmem : k ∈ s.request.keys.take (resultBitmap s.request).clo
      · obtain ⟨e'', he'', _, hlocks⟩ := hbacks.held k hmem
        obtain rfl := Option.some.inj (hget.symm.trans he'')
        omega
      · exact hbacks.cleared k (h.loaded_reserved hload) hmem e' hget ⟨htemporary, havailable⟩
    refine ⟨hready, fun k hk hpast => ?_⟩
    have hload := mem_loaded_of_mem_take hk
    obtain ⟨e, he, hr⟩ := hready k hload
    obtain ⟨e', he', _⟩ := hbacks.held k hk
    rw [(h.due_ready he hr hload).2, if_pos hpast] at he'
    cases he'
  · rintro ⟨hready, hgap⟩
    refine ⟨fun k hk => ?_, fun k hk hnot e' he' => ?_⟩
    · have hload := mem_loaded_of_mem_take hk
      obtain ⟨e, he, hr⟩ := hready k hload
      obtain ⟨hfresh, hdue⟩ := h.due_ready he hr hload
      refine ⟨_, ?_, hfresh.write_unlock s.now, hfresh.held_reading hr.2⟩
      rw [hdue, if_neg (hgap k hk)]
    · by_cases hload : k ∈ (resultBitmap s.request).gather s.request.keys
      · obtain ⟨e, he, hr⟩ := hready k hload
        rw [(h.due_ready he hr hload).2, if_pos (mem_behindGap hload hnot)] at he'
        cases he'
      · rw [h.due_failed hk hload] at he'
        cases he'

def Kept (keys : List K) (extraCount : ℤ) (s : PrefetchState K) : Prop :=
  (s.request.keys = keys ∧ s.request.extraCount = extraCount) ∧
    (s.progress = .running ∧ (Searching s ∨ Loading s) ∨
      Winding s ∧ Backs keys extraCount s.request.writeReservedKeys s.now s.due s.hits)

def Lost (keys : List K) (extraCount : ℤ) (s : PrefetchState K) : Prop :=
  (s.request.keys = keys ∧ s.request.extraCount = extraCount) ∧ Winding s ∧
    ¬ Backs keys extraCount s.request.writeReservedKeys s.now s.due s.hits

theorem kept_start (l1 : L1Manager K) (now : ℕ) (adapters : List AdapterDescriptor) (keys : List K)
    (extraCount : ℤ) : Kept keys extraCount (startLookupPhase l1 now adapters keys extraCount) := by
  refine ⟨⟨rfl, rfl⟩, ?_⟩
  cases adapters with
  | nil =>
    refine .inr ⟨⟨by simp [startLookupPhase], ⟨.inr rfl, rfl⟩, fun op hop => absurd hop
      not_mem_nil, fun k hk => absurd hk not_mem_nil⟩, ?_, fun k hk => absurd hk
      not_mem_nil⟩
    intro k hk
    exact absurd hk not_mem_nil
  | cons ad adapters => exact .inl ⟨rfl, .inl ⟨rfl, rfl, rfl⟩⟩

variable {op : L1Step K}

omit [DecidableEq K] in
theorem settles_cleanUp {ks : List K} (hop : op ∈ cleanUp ks) : op.Settles := by
  rw [cleanUp] at hop
  split_ifs at hop
  · exact absurd hop not_mem_nil
  · rcases mem_pair.mp hop with rfl | rfl
    · trivial
    · trivial

omit [DecidableEq K] in
theorem settles_finalCalls {loaded failed nonPrefix : List K}
    (hop : op ∈ finalCalls loaded failed nonPrefix extraCount) : op.Settles := by
  rcases mem_append.mp hop with hop | hop
  · rcases mem_append.mp hop with hop | hop
    · split_ifs at hop
      · exact absurd hop not_mem_nil
      · obtain rfl := mem_singleton.mp hop
        trivial
    · exact settles_cleanUp hop
  · split_ifs at hop
    · exact absurd hop not_mem_nil
    · obtain rfl := mem_singleton.mp hop
      trivial

omit [DecidableEq K] in
theorem fresh_newEntry (m : L1Manager K) (now i : ℕ) : (m.newEntry now i true).Fresh := by
  refine ⟨rfl, ?_, rfl⟩
  change (if (0 : ℕ) ≤ now then 1 else 0 + 1) = 1
  exact if_pos (Nat.zero_le now)

theorem Searching.loading (h : Searching s) (loadPlan trimmedPlan : Dict ℕ Bitmap)
    (granted : Bool) : Loading (s.enterLoadPhase.reserveBuffers loadPlan trimmedPlan granted) := by
  obtain ⟨_, hfresh, _⟩ :=
    s.enterLoadPhase.reserveBuffers_spec h.reserved loadPlan trimmedPlan granted
  refine ⟨rfl, fun a bm i hbm hi => reserved_of_lt_clo (lt_of_trim hbm hi),
    fun k hk => (hfresh k hk).1, fun k hk => ?_⟩
  obtain ⟨_, i, hget⟩ := hfresh k hk
  exact ⟨_, hget, fresh_newEntry _ _ i⟩

theorem Loading.submitLoadTasks (h : Loading s) : Loading s.submitLoadTasks :=
  ⟨h.phase, h.planned, h.requested, h.fresh⟩

omit [DecidableEq K] in
theorem backs_nothing {reserved : List K} {now : ℕ} {lookup : K → Option L1ObjectState}
    (h : ∀ k ∈ reserved, lookup k = none) : Backs keys extraCount reserved now lookup 0 := by
  refine ⟨fun k hk => absurd hk (by rw [take_zero]; exact not_mem_nil), ?_⟩
  intro k hk _ e he
  rw [h k hk] at he
  cases he

theorem Searching.transition (h : Searching s) (hrunning : s.progress = .running) (granted : Bool) :
    Kept s.request.keys s.request.extraCount (s.transitionToLoadPhase granted) := by
  have hloading := fun loadPlan trimmedPlan => h.loading loadPlan trimmedPlan granted
  simp only [transitionToLoadPhase]
  split_ifs with hempty hnone
  · refine ⟨⟨rfl, rfl⟩, .inr ⟨winding_completeAfter ⟨.inl rfl, h.noLoads⟩
      (fun op hop => absurd hop not_mem_nil) fun k hk => ?_, backs_nothing fun k hk => ?_⟩⟩
    · change k ∈ s.request.writeReservedKeys at hk
      rw [h.reserved] at hk
      exact absurd hk not_mem_nil
    · change k ∈ s.request.writeReservedKeys at hk
      rw [h.reserved] at hk
      exact absurd hk not_mem_nil
  · refine ⟨⟨rfl, rfl⟩, .inr ⟨winding_completeAfter ⟨.inl rfl, h.noLoads⟩
      (fun op => settles_cleanUp) (hloading _ _).requested, ?_⟩⟩
    rw [hits_completeAfter]
    refine backs_nothing fun k hk => ?_
    obtain ⟨e, he, hfresh⟩ := (hloading _ _).fresh k hk
    rw [due_completeAfter, he]
    exact replay_cleanUp hk hfresh
  · generalize DefaultPrefetchPolicy.selectLoadPlan s.enterLoadPhase.request.keys.length
      s.enterLoadPhase.request.lookupResults s.enterLoadPhase.adapters = loadPlan
    generalize trimLoadPlanToPrefix loadPlan s.enterLoadPhase.request.keys.length = trimmedPlan
    exact ⟨⟨rfl, rfl⟩, .inl ⟨hrunning, .inr (hloading loadPlan trimmedPlan).submitLoadTasks⟩⟩

theorem Searching.lookupDone (h : Searching s) (hrunning : s.progress = .running) (a : ℕ)
    (result : Bitmap) (granted : Bool) :
    Kept s.request.keys s.request.extraCount (s.exec (.lookupDone a result granted)) := by
  have hrecorded : Searching (s.recordLookup a result) := ⟨h.phase, h.noLoads, h.reserved⟩
  simp only [exec, processLookupCompletion]
  split_ifs
  · exact ⟨⟨rfl, rfl⟩, .inl ⟨hrunning, .inl h⟩⟩
  · exact hrecorded.transition hrunning granted
  · exact ⟨⟨rfl, rfl⟩, .inl ⟨hrunning, .inl hrecorded⟩⟩
  · exact ⟨⟨rfl, rfl⟩, .inl ⟨hrunning, .inl h⟩⟩

theorem Loading.finalize (h : Loading s) (hnoLoads : s.request.pendingLoadTasks = []) :
    Winding s.finalizeLoad :=
  winding_completeAfter ⟨.inl h.phase, hnoLoads⟩ (fun _ => settles_finalCalls) h.requested

theorem Loading.loadDone_last (h : Loading s) {a : ℕ} (result : Bitmap) (hlast : s.LastLoad a) :
    Winding (s.exec (.loadDone a result)) ∧
      (Backs s.request.keys s.request.extraCount
          (s.exec (.loadDone a result)).request.writeReservedKeys
          (s.exec (.loadDone a result)).now (s.exec (.loadDone a result)).due
          (s.exec (.loadDone a result)).hits ↔ s.Timely (.loadDone a result)) := by
  have hrecorded : Loading (s.recordLoad a result) := ⟨h.phase, h.planned, h.requested, h.fresh⟩
  have hexec : s.exec (.loadDone a result) = (s.recordLoad a result).finalizeLoad := by
    simp only [exec, processLoadCompletion, if_neg (not_not.mpr hlast.1),
      if_neg (not_not.mpr hlast.2.1)]
    exact if_pos hlast.2.2
  have hhits : (s.recordLoad a result).finalizeLoad.hits =
      (resultBitmap (s.recordLoad a result).request).clo := hits_completeAfter
  rw [hexec, hhits]
  exact ⟨hrecorded.finalize (isEmpty_iff.mp hlast.2.2),
    (backs_finalCalls hrecorded).trans ⟨fun hready _ => hready, fun htimely => htimely hlast⟩⟩

theorem Loading.loadDone_other (h : Loading s) (hrunning : s.progress = .running) {a : ℕ}
    (result : Bitmap) (hother : ¬ s.LastLoad a) :
    Kept s.request.keys s.request.extraCount (s.exec (.loadDone a result)) := by
  have hrecorded : Loading (s.recordLoad a result) := ⟨h.phase, h.planned, h.requested, h.fresh⟩
  simp only [exec, processLoadCompletion]
  split_ifs with hphase hpending hdone
  · exact absurd h.phase hphase
  · exact absurd ⟨h.phase, hpending, hdone⟩ hother
  · exact ⟨⟨rfl, rfl⟩, .inl ⟨hrunning, .inr hrecorded⟩⟩
  · exact ⟨⟨rfl, rfl⟩, .inl ⟨hrunning, .inr h⟩⟩

theorem Loading.other (h : Loading s) (hrunning : s.progress = .running)
    (hop : ∀ k ∈ s.request.keys, ¬ op.Touches k) :
    Kept s.request.keys s.request.extraCount (s.exec (.other op)) := by
  refine ⟨⟨rfl, rfl⟩, .inl ⟨hrunning, .inr ⟨h.phase, h.planned, h.requested, fun k hk => ?_⟩⟩⟩
  obtain ⟨e, he, hfresh⟩ := h.fresh k hk
  exact ⟨e, (step_of_not_touches (hop k (h.requested k hk))).trans he, hfresh⟩

theorem running_step (hstage : s.progress = .running ∧ (Searching s ∨ Loading s))
    {ev : PrefetchEvent K} (hev : s.Undisturbed ev) :
    (s.Timely ev → Kept s.request.keys s.request.extraCount (s.exec ev)) ∧
      (¬ s.Timely ev → Lost s.request.keys s.request.extraCount (s.exec ev)) := by
  obtain ⟨hrunning, hstage⟩ := hstage
  have hquiet : ∀ {P : Prop}, P → (True → P) ∧ (¬ True → Lost s.request.keys s.request.extraCount
      (s.exec ev)) := fun hp => ⟨fun _ => hp, fun hnot => absurd trivial hnot⟩
  cases ev with
  | lookupDone a result granted =>
    refine hquiet ?_
    rcases hstage with h | h
    · exact h.lookupDone hrunning a result granted
    · have hsame : s.exec (.lookupDone a result granted) = s :=
        processLookupCompletion_of_not_pending fun hlookup => by simp [h.phase] at hlookup
      rw [hsame]
      exact ⟨⟨rfl, rfl⟩, .inl ⟨hrunning, .inr h⟩⟩
  | call =>
    refine hquiet ?_
    have hsame : s.exec .call = s := by simp only [exec, hrunning]
    rw [hsame]
    exact ⟨⟨rfl, rfl⟩, .inl ⟨hrunning, hstage⟩⟩
  | other op =>
    refine hquiet ?_
    rcases hstage with h | h
    · exact ⟨⟨rfl, rfl⟩, .inl ⟨hrunning, .inl ⟨h.phase, h.noLoads, h.reserved⟩⟩⟩
    · exact h.other hrunning hev.1
  | loadDone a result =>
    rcases hstage with h | h
    · have hsame : s.exec (.loadDone a result) = s :=
        processLoadCompletion_of_not_pending fun hload => by simp [h.phase] at hload
      have htimely : s.Timely (.loadDone a result) := fun hlast => by
        have hphase := hlast.1
        simp [h.phase] at hphase
      rw [hsame]
      exact ⟨fun _ => ⟨⟨rfl, rfl⟩, .inl ⟨hrunning, .inl h⟩⟩, fun hnot => absurd htimely hnot⟩
    · by_cases hlast : s.LastLoad a
      · obtain ⟨hwinding, hbacks⟩ := h.loadDone_last result hlast
        have hrequest : (s.exec (.loadDone a result)).request.keys = s.request.keys ∧
            (s.exec (.loadDone a result)).request.extraCount = s.request.extraCount := by
          simp only [exec, processLoadCompletion]
          split_ifs
          · exact ⟨rfl, rfl⟩
          · exact ⟨rfl, rfl⟩
          · exact ⟨rfl, rfl⟩
          · exact ⟨rfl, rfl⟩
        exact ⟨fun htimely => ⟨hrequest, .inr ⟨hwinding, hbacks.mpr htimely⟩⟩,
          fun hlate => ⟨hrequest, hwinding, fun hb => hlate (hbacks.mp hb)⟩⟩
      · exact ⟨fun _ => h.loadDone_other hrunning result hlast,
          fun hlate => absurd (fun h' => absurd h' hlast) hlate⟩

theorem Winding.backs_exec (h : Winding s) {ev : PrefetchEvent K} (hev : s.Undisturbed ev) :
    Backs s.request.keys extraCount (s.exec ev).request.writeReservedKeys (s.exec ev).now
        (s.exec ev).due (s.exec ev).hits ↔
      Backs s.request.keys extraCount s.request.writeReservedKeys s.now s.due s.hits := by
  obtain ⟨_, hrequest, hnow, hhits, hdue⟩ := h.exec hev
  rw [hrequest, hnow, hhits]
  exact ⟨fun hbacks => hbacks.congr h.requested fun k hk => (hdue k hk).symm,
    fun hbacks => hbacks.congr h.requested hdue⟩

variable {ev : PrefetchEvent K}

theorem kept_exec (h : Kept keys extraCount s) (hev : s.Undisturbed ev) (htimely : s.Timely ev) :
    Kept keys extraCount (s.exec ev) := by
  obtain ⟨⟨rfl, rfl⟩, hstage | ⟨hwinding, hbacks⟩⟩ := h
  · exact (running_step hstage hev).1 htimely
  · obtain ⟨hwinding', hrequest, _⟩ := hwinding.exec hev
    exact ⟨by rw [hrequest]; exact ⟨rfl, rfl⟩,
      .inr ⟨hwinding', (hwinding.backs_exec hev).mpr hbacks⟩⟩

theorem lost_exec (h : Lost keys extraCount s) (hev : s.Undisturbed ev) :
    Lost keys extraCount (s.exec ev) := by
  obtain ⟨⟨rfl, rfl⟩, hwinding, hbacks⟩ := h
  obtain ⟨hwinding', hrequest, _⟩ := hwinding.exec hev
  exact ⟨by rw [hrequest]; exact ⟨rfl, rfl⟩, hwinding',
    fun hb => hbacks ((hwinding.backs_exec hev).mp hb)⟩

theorem Winding.timely (h : Winding s) (ev : PrefetchEvent K) : s.Timely ev := by
  cases ev with
  | loadDone a result =>
    intro hlast
    have hpending := hlast.2.1
    rw [h.quiet.noLoads] at hpending
    exact absurd hpending not_mem_nil
  | _ => trivial

theorem lost_of_late (h : Kept keys extraCount s) (hev : s.Undisturbed ev) (hlate : ¬ s.Timely ev) :
    Lost keys extraCount (s.exec ev) := by
  obtain ⟨⟨rfl, rfl⟩, hstage | ⟨hwinding, _⟩⟩ := h
  · exact (running_step hstage hev).2 hlate
  · exact absurd (hwinding.timely ev) hlate

theorem due_of_completed (hdone : s.progress = .completed prefixHits) :
    s.due = s.l1.objects.get? := by
  funext k
  rw [due, remaining, hdone, foldl_nil]

theorem backed_iff_timely (l1 : L1Manager K) (now : ℕ) (adapters : List AdapterDescriptor)
    (keys : List K) (extraCount : ℤ) (events : List (PrefetchEvent K))
    (hrun : Execution.Along exec Undisturbed (startLookupPhase l1 now adapters keys extraCount) events)
    {prefixHits : ℕ} {final : PrefetchState K}
    (hfinal : final = Execution.final exec (startLookupPhase l1 now adapters keys extraCount) events)
    (hdone : final.progress = .completed prefixHits) :
    Backs keys extraCount final.request.writeReservedKeys final.now final.l1.objects.get? prefixHits ↔
      Execution.Along exec Timely (startLookupPhase l1 now adapters keys extraCount) events := by
  have hhits : final.hits = prefixHits := by rw [hits, hdone]
  rw [← due_of_completed hdone, ← hhits]
  rcases Execution.along_or_not (I := Kept keys extraCount) (J := Lost keys extraCount)
    (fun s ev => kept_exec) (fun s ev => lost_of_late) (fun s ev => lost_exec)
    (kept_start l1 now adapters keys extraCount) hrun with ⟨hall, _, hkept⟩ | ⟨hnot, _, _, hlost⟩
  · rw [← hfinal] at hkept
    rcases hkept with ⟨hrunning, _⟩ | ⟨_, hbacks⟩
    · rw [hdone] at hrunning
      cases hrunning
    · exact ⟨fun _ => hall, fun _ => hbacks⟩
  · rw [← hfinal] at hlost
    exact ⟨fun hbacks => absurd hbacks hlost, fun hall => absurd hall hnot⟩

def lateRun (ms : ℕ) : List (PrefetchEvent ℕ) :=
  [.lookupDone 0 ((Bitmap.ofSize 1).set 0) true, .other (.advance ms),
    .loadDone 0 ((Bitmap.ofSize 1).set 0), .call]

def lateState (ms : ℕ) : PrefetchState ℕ :=
  Execution.final exec (startLookupPhase (init 600 300) 0 [⟨0⟩] [7] 1) (lateRun ms)

theorem undisturbed_lateRun (ms : ℕ) :
    Execution.Along exec Undisturbed
      (startLookupPhase (init 600 300) 0 [⟨0⟩] [7] 1) (lateRun ms) := by
  refine ⟨trivial, ⟨fun k _ htouches => ?_, .inl ?_⟩, trivial, trivial, trivial⟩
  · exact absurd htouches not_mem_nil
  · decide +kernel

theorem backed_lateRun_early :
    Backs [7] 1 (lateState 5).request.writeReservedKeys (lateState 5).now
        (lateState 5).l1.objects.get? 1 ↔
      Execution.Along exec Timely (startLookupPhase (init 600 300) 0 [⟨0⟩] [7] 1) (lateRun 5) :=
  backed_iff_timely (init 600 300) 0 [⟨0⟩] [7] 1 (lateRun 5) (undisturbed_lateRun 5) rfl
    (by decide +kernel)

theorem not_backed_lateRun_late :
    Execution.Along exec Undisturbed (startLookupPhase (init 600 300) 0 [⟨0⟩] [7] 1)
        (lateRun 600000) ∧
      (lateState 600000).progress = .completed 1 ∧
      ¬ Backs [7] 1 (lateState 600000).request.writeReservedKeys (lateState 600000).now
        (lateState 600000).l1.objects.get? 1 := by
  refine ⟨undisturbed_lateRun 600000, by decide +kernel, fun h => ?_⟩
  obtain ⟨e, he, _, hheld⟩ := h.held 7 mem_cons_self
  have hfree : ∀ e ∈ (lateState 600000).l1.objects.get? 7,
      e.readLock.held (lateState 600000).now = 0 := by decide +kernel
  rw [hfree e he] at hheld
  exact absurd hheld (by decide)

end PrefetchState

end LMCache
