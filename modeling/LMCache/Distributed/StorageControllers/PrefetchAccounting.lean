import LMCache.Distributed.LockLedger
import LMCache.Distributed.StorageControllers.PrefetchPlans

namespace LMCache

open L1Manager List Bitmap Execution

namespace PrefetchState

open L1Manager (countsOf settle)

variable {K : Type}

theorem closes_cleanUp {ks R : List K} (hnodup : ks.Nodup) (hsub : ∀ k ∈ ks, k ∈ R) {op : L1Step K}
    (hop : op ∈ cleanUp ks) : op.Closing ∧ ∀ k ∈ op.keys, k ∈ R := by
  simp only [cleanUp] at hop
  split_ifs at hop
  · simp at hop
  · rcases mem_pair.mp hop with rfl | rfl
    · exact ⟨hnodup, hsub⟩
    · exact ⟨hnodup, hsub⟩

variable [DecidableEq K]

def Admissible (s : PrefetchState K) : PrefetchEvent K → Prop
  | .lookupDone _ result _ => result.size = s.request.keys.length
  | .other op => ∀ k ∈ s.request.keys, ¬ op.Touches k
  | _ => True

def Unexpired (s : PrefetchState K) : Prop :=
  ∀ k ∈ s.request.writeReservedKeys, ∀ e ∈ s.l1.objects.get? k, e.Live s.now

instance (s : PrefetchState K) : Decidable (Unexpired s) :=
  inferInstanceAs (Decidable (∀ k ∈ s.request.writeReservedKeys, ∀ e ∈ _, _))

instance (s : PrefetchState K) (ev : PrefetchEvent K) : Decidable (Admissible s ev) :=
  match ev with
  | .lookupDone _ result _ => inferInstanceAs (Decidable (result.size = _))
  | .other op => inferInstanceAs (Decidable (∀ k ∈ s.request.keys, ¬ op.Touches k))
  | .loadDone _ _ => .isTrue trivial
  | .call => .isTrue trivial

def promised (s : PrefetchState K) (prefixHits : ℕ) (k : K) : Option (ℕ × ℕ) :=
  if k ∈ s.request.keys.take prefixHits then
    some (0, 1 + validateExtraCount s.request.extraCount)
  else none

structure InLookup (s : PrefetchState K) : Prop where
  phase : s.request.phase = .lookup
  noLoads : s.request.pendingLoadTasks = []
  reserved : s.request.writeReservedKeys = []
  unlocks : s.unlocks = []
  sized : Sized s.request.keys.length s.request.lookupResults

structure InLoad (s : PrefetchState K) : Prop where
  phase : s.request.phase = .planAndLoad
  sized : Sized s.request.keys.length s.request.lookupResults
  within : PlanWithin s.request.keys.length s.request.loadPlan s.request.lookupResults
  planned : ∀ a bm i, s.request.loadPlan.get? a = some bm → bm.test i = true →
    ∃ k ∈ s.request.writeReservedKeys, s.request.keys[i]? = some k
  unlocked : ∀ a, unlockedOn s.unlocks a = ((s.request.lookupResults.get? a).map
    (fun bm => (bm.and (planOn s.request a).not).gather s.request.keys)).getD []
  writing : ∀ k ∈ s.request.writeReservedKeys, countsOf s.l1 s.now k = some (1, 0)

structure Settling (s : PrefetchState K) (calls : List (L1Step K)) (prefixHits : ℕ) : Prop where
  phase : s.request.phase = .planAndLoad ∨ s.request.pendingLookupTasks = []
  noLoads : s.request.pendingLoadTasks = []
  unlocked : ∀ a, (unlockedOn s.unlocks a).Perm (reportedOn s.request a)
  hits : ∀ k ∈ s.request.keys.take prefixHits, k ∈ s.request.writeReservedKeys
  closing : ∀ op ∈ calls, op.Closing ∧ ∀ k ∈ op.keys, k ∈ s.request.writeReservedKeys
  settled : ∀ k ∈ s.request.writeReservedKeys,
    calls.foldl (settle k) (countsOf s.l1 s.now k) = promised s prefixHits k

def Stage (s : PrefetchState K) : PrefetchProgress K → Prop
  | .running => InLookup s ∨ InLoad s
  | .closing calls prefixHits => Settling s calls prefixHits
  | .completed prefixHits => Settling s [] prefixHits

structure Balanced (initial : L1Manager K) (keys : List K) (extraCount : ℤ) (s : PrefetchState K) :
    Prop where
  sameKeys : s.request.keys = keys
  sameCount : s.request.extraCount = extraCount
  nodup : s.request.writeReservedKeys.Nodup
  requested : ∀ k ∈ s.request.writeReservedKeys, k ∈ keys
  temporary : ∀ k ∈ s.request.writeReservedKeys, ∀ e, s.l1.objects.get? k = some e →
    e.isTemporary = true
  outside : ∀ k ∈ keys, k ∉ s.request.writeReservedKeys →
    s.l1.objects.get? k = initial.objects.get? k
  stage : Stage s s.progress

variable {s : PrefetchState K} {initial : L1Manager K} {keys : List K} {extraCount : ℤ}
  {calls : List (L1Step K)} {prefixHits : ℕ}

theorem stage_completeAfter (h : Settling s calls prefixHits) :
    Stage (s.completeAfter calls prefixHits) (s.completeAfter calls prefixHits).progress := by
  have hsettling : Settling (s.completeAfter calls prefixHits) calls prefixHits :=
    ⟨h.phase, h.noLoads, h.unlocked, h.hits, h.closing, h.settled⟩
  cases calls with
  | nil => exact hsettling
  | cons op calls => exact hsettling

theorem balanced_start (l1 : L1Manager K) (now : ℕ) (adapters : List AdapterDescriptor)
    (keys : List K) (extraCount : ℤ) :
    Balanced l1 keys extraCount (startLookupPhase l1 now adapters keys extraCount) := by
  refine ⟨rfl, rfl, nodup_nil, fun k hk => by simp [startLookupPhase] at hk,
    fun k hk => by simp [startLookupPhase] at hk, fun k _ _ => rfl, ?_⟩
  cases adapters with
  | nil =>
    refine ⟨.inr rfl, rfl, fun a => ?_, fun k hk => ?_, fun op hop => by simp at hop,
      fun k hk => by simp [startLookupPhase] at hk⟩
    · exact List.Perm.refl []
    · simp at hk
  | cons ad adapters => exact .inl ⟨rfl, rfl, rfl, rfl, fun a bm hbm => by simp [startLookupPhase] at hbm⟩

theorem Balanced.call (h : Balanced initial keys extraCount s)
    (hlive : Unexpired (s.exec .call)) : Balanced initial keys extraCount (s.exec .call) := by
  cases hp : s.progress with
  | running => simpa only [exec, hp] using h
  | completed hits => simpa only [exec, hp] using h
  | closing calls hits =>
    cases calls with
    | nil => simpa only [exec, hp] using h
    | cons op calls =>
      have hstage := h.stage
      rw [hp] at hstage
      obtain ⟨hclosing, hreserved⟩ := hstage.closing op mem_cons_self
      simp only [exec, hp] at hlive ⊢
      have hcounts : ∀ k ∈ s.request.writeReservedKeys,
          countsOf (s.l1.step s.now op) s.now k = settle k (countsOf s.l1 s.now k) op ∧
            ∀ e, (s.l1.step s.now op).objects.get? k = some e → e.isTemporary = true :=
        fun k hk => counts_step hclosing (h.temporary k hk) (hlive k hk)
      refine ⟨h.sameKeys, h.sameCount, h.nodup, h.requested, fun k hk => (hcounts k hk).2,
        fun k hk hnot => ?_, ?_⟩
      · have huntouched : ¬ op.Touches k := hclosing.not_touches fun hmem => hnot (hreserved k hmem)
        exact (step_of_not_touches huntouched).trans (h.outside k hk hnot)
      · refine stage_completeAfter ⟨hstage.phase, hstage.noLoads, hstage.unlocked, hstage.hits,
          fun op' hop' => hstage.closing op' (mem_cons_of_mem _ hop'), fun k hk => ?_⟩
        have hsettled := hstage.settled k hk
        rw [foldl_cons, ← (hcounts k hk).1] at hsettled
        exact hsettled

theorem Balanced.other (h : Balanced initial keys extraCount s) {op : L1Step K}
    (hop : ∀ k ∈ s.request.keys, ¬ op.Touches k) (hlive : Unexpired (s.exec (.other op))) :
    Balanced initial keys extraCount (s.exec (.other op)) := by
  rw [h.sameKeys] at hop
  have hget : ∀ k ∈ keys, (s.l1.step s.now op).objects.get? k = s.l1.objects.get? k :=
    fun k hk => step_of_not_touches (hop k hk)
  have hcounts : ∀ k ∈ s.request.writeReservedKeys,
      countsOf (s.l1.step s.now op) (op.tick s.now) k = countsOf s.l1 s.now k := by
    intro k hk
    have hliveK := hlive k hk
    simp only [exec] at hliveK
    rw [hget k (h.requested k hk)] at hliveK
    rw [countsOf, countsOf, hget k (h.requested k hk)]
    cases he : s.l1.objects.get? k with
    | none => rfl
    | some e =>
      exact congrArg some (counts_eq_of_le (op.le_tick s.now) (hliveK e he))
  refine ⟨h.sameKeys, h.sameCount, h.nodup, h.requested, fun k hk e he => ?_, fun k hk hnot => ?_, ?_⟩
  · exact h.temporary k hk e ((hget k (h.requested k hk)).symm.trans he)
  · exact (hget k hk).trans (h.outside k hk hnot)
  · have hstage := h.stage
    have hsettling : ∀ {calls : List (L1Step K)} {hits : ℕ}, Settling s calls hits →
        Settling (s.exec (.other op)) calls hits := fun hs =>
      ⟨hs.phase, hs.noLoads, hs.unlocked, hs.hits, hs.closing, fun k hk => by
        have hsettled := hs.settled k hk
        rw [← hcounts k hk] at hsettled
        exact hsettled⟩
    change Stage _ s.progress
    cases hp : s.progress with
    | running =>
      rw [hp] at hstage
      rcases hstage with hs | hs
      · exact .inl ⟨hs.phase, hs.noLoads, hs.reserved, hs.unlocks, hs.sized⟩
      · exact .inr ⟨hs.phase, hs.sized, hs.within, hs.planned, hs.unlocked,
          fun k hk => (hcounts k hk).trans (hs.writing k hk)⟩
    | closing calls hits =>
      rw [hp] at hstage
      exact hsettling hstage
    | completed hits =>
      rw [hp] at hstage
      exact hsettling hstage

variable {k : K}

theorem settle_cleanUp {ks : List K} (hk : k ∈ ks) :
    (cleanUp ks).foldl (settle k) (some (1, 0)) = none := by
  have hne : ¬ ks.isEmpty = true := by
    rw [List.isEmpty_iff]
    exact ne_nil_of_mem hk
  simp [cleanUp, hne, settle, L1Step.keys, hk, book]

theorem settle_cleanUp_of_not_mem {ks : List K} (hk : k ∉ ks) (c : Option (ℕ × ℕ)) :
    (cleanUp ks).foldl (settle k) c = c := by
  simp only [cleanUp]
  split_ifs
  · rfl
  · simp [settle, L1Step.keys, hk]

theorem get?_of_isEmpty {V : Type} {d : Dict ℕ V} (h : d.items.isEmpty = true) (a : ℕ) :
    d.get? a = none := by
  rw [Dict.get?, isEmpty_iff.mp h]
  rfl

theorem promised_zero (s : PrefetchState K) (k : K) : promised s 0 k = none := if_neg (by simp)

theorem InLoad.settling_nothing (hs : InLoad s) (hkeys : s.request.keys.Nodup)
    (hnoLoads : s.request.pendingLoadTasks = [])
    (hempty : s.request.loadPlan.items.isEmpty = true) (hnodup : s.request.writeReservedKeys.Nodup) :
    Settling s (cleanUp s.request.writeReservedKeys) 0 := by
  refine ⟨.inl hs.phase, hnoLoads, fun a => ?_, fun k hk => by simp at hk,
    fun op hop => closes_cleanUp hnodup (fun _ hk => hk) hop, fun k hk => ?_⟩
  · have hperm := unlocked_perm hkeys hs.sized hs.within a
    have hnone : (planOn s.request a).gather s.request.keys = [] := by
      rw [planOn, get?_of_isEmpty hempty]
      exact gather_ofSize _ _
    rw [hnone, append_nil] at hperm
    rw [hs.unlocked a]
    exact hperm
  · rw [hs.writing k hk, settle_cleanUp hk, promised_zero]

theorem reserveBuffers_spec (hreserved : s.request.writeReservedKeys = [])
    (loadPlan trimmedPlan : Dict ℕ Bitmap) (granted : Bool) :
    (s.reserveBuffers loadPlan trimmedPlan granted).request.writeReservedKeys.Nodup ∧
      (∀ k ∈ (s.reserveBuffers loadPlan trimmedPlan granted).request.writeReservedKeys,
        k ∈ s.request.keys ∧ ∃ i, (s.reserveBuffers loadPlan trimmedPlan granted).l1.objects.get? k =
          some (newEntry s.l1 s.now i true)) ∧
      ∀ k ∉ (s.reserveBuffers loadPlan trimmedPlan granted).request.writeReservedKeys,
        (s.reserveBuffers loadPlan trimmedPlan granted).l1.objects.get? k = s.l1.objects.get? k := by
  simp only [reserveBuffers, unlockUnneededKeys, recordReservations, hreserved, nil_append]
  generalize hks : (mergeBitmaps trimmedPlan.values s.request.keys.length).gather s.request.keys = ks
  generalize hres : s.l1.reserveWrite s.now granted ks (replicate ks.length true) .new = res
  obtain ⟨ret, l1⟩ := res
  have hwrite := reserveWrite_new hres
  refine ⟨nodup_reservedOf ret, fun k hk => ?_, fun k hk => ?_⟩
  · obtain ⟨obj, hobj⟩ := mem_reservedOf.mp hk
    rcases hwrite k with ⟨_, hfail⟩ | ⟨hmem, _, i, hget, _⟩
    · exact absurd ⟨some obj, hobj⟩ hfail
    · rw [← hks] at hmem
      obtain ⟨j, _, hj⟩ := mem_gather.mp hmem
      exact ⟨mem_of_getElem? hj, i, hget⟩
  · rcases hwrite k with ⟨hget, _⟩ | ⟨_, _, i, _, hret⟩
    · exact hget
    · exact absurd (mem_reservedOf.mpr ⟨_, hret⟩) hk

variable {granted : Bool}

theorem inLoad_reserveBuffers (hphase : s.request.phase = .planAndLoad)
    (hreserved : s.request.writeReservedKeys = []) (hunlocks : s.unlocks = [])
    (hsized : Sized s.request.keys.length s.request.lookupResults)
    {loadPlan trimmedPlan : Dict ℕ Bitmap}
    (hwithin : PlanWithin s.request.keys.length loadPlan s.request.lookupResults)
    (hlive : Unexpired (s.reserveBuffers loadPlan trimmedPlan granted)) :
    InLoad (s.reserveBuffers loadPlan trimmedPlan granted) := by
  obtain ⟨_, hfresh, _⟩ := s.reserveBuffers_spec hreserved loadPlan trimmedPlan granted
  refine ⟨hphase, hsized, within_trim hwithin _, fun a bm i hbm hi => ?_, fun a => ?_,
    fun k hk => ?_⟩
  · exact reserved_of_lt_clo (lt_of_trim hbm hi)
  · rw [reserveBuffers, unlocks_unlockUnneededKeys]
    simp only [hunlocks]
    rfl
  · obtain ⟨_, i, hget⟩ := hfresh k hk
    rw [countsOf, hget]
    exact congrArg some (counts_newEntry (hlive k hk _ hget))

structure Reserves (s s' : PrefetchState K) : Prop where
  keys : s'.request.keys = s.request.keys
  extraCount : s'.request.extraCount = s.request.extraCount
  noLoads : s'.request.pendingLoadTasks = s.request.pendingLoadTasks
  progress : s'.progress = s.progress
  now : s'.now = s.now
  nodup : s'.request.writeReservedKeys.Nodup
  fresh : ∀ k ∈ s'.request.writeReservedKeys, k ∈ s.request.keys ∧ ∃ i, s'.l1.objects.get? k =
    some (newEntry s.l1 s.now i true)
  kept : ∀ k ∉ s'.request.writeReservedKeys, s'.l1.objects.get? k = s.l1.objects.get? k
  load : Unexpired s' → InLoad s'

theorem InLookup.reserves (hs : InLookup s) {loadPlan : Dict ℕ Bitmap}
    (hwithin : PlanWithin s.request.keys.length loadPlan s.request.lookupResults)
    (trimmedPlan : Dict ℕ Bitmap) (granted : Bool) :
    Reserves s (s.enterLoadPhase.reserveBuffers loadPlan trimmedPlan granted) := by
  obtain ⟨hnodup, hfresh, hkept⟩ :=
    s.enterLoadPhase.reserveBuffers_spec hs.reserved loadPlan trimmedPlan granted
  exact ⟨rfl, rfl, rfl, rfl, rfl, hnodup, hfresh, hkept,
    inLoad_reserveBuffers (s := s.enterLoadPhase) rfl hs.reserved hs.unlocks hs.sized hwithin⟩

theorem InLookup.transition_cases (hs : InLookup s) (granted : Bool) :
    s.transitionToLoadPhase granted = s.enterLoadPhase.unlockAllLookups.completeAfter [] 0 ∨
    ∃ s', Reserves s s' ∧
      (s'.request.loadPlan.items.isEmpty = true ∧ s.transitionToLoadPhase granted =
          s'.completeAfter (cleanUp s'.request.writeReservedKeys) 0 ∨
        s.transitionToLoadPhase granted = s'.submitLoadTasks) := by
  have hreserves := fun trimmedPlan => hs.reserves
    (DefaultPrefetchPolicy.within_selectLoadPlan hs.sized s.adapters) trimmedPlan granted
  simp only [transitionToLoadPhase]
  split_ifs with hempty hnone
  · exact .inl rfl
  · exact .inr ⟨_, hreserves _, .inl ⟨hnone, rfl⟩⟩
  · exact .inr ⟨_, hreserves _, .inr rfl⟩

theorem Balanced.transition (h : Balanced initial keys extraCount s) (hs : InLookup s)
    (hrunning : s.progress = .running) (hkeys : keys.Nodup) (granted : Bool)
    (hlive : Unexpired (s.transitionToLoadPhase granted)) :
    Balanced initial keys extraCount (s.transitionToLoadPhase granted) := by
  rcases hs.transition_cases granted with heq | ⟨s', hr, hcases⟩
  · rw [heq]
    refine ⟨h.sameKeys, h.sameCount, h.nodup, h.requested, h.temporary, h.outside,
      stage_completeAfter ⟨.inl rfl, hs.noLoads, fun a => ?_, fun k hk => by simp at hk,
        fun op hop => by simp at hop, fun k hk => ?_⟩⟩
    · rw [unlocks_unlockAllLookups]
      change (unlockedOn s.unlocks a ++ _).Perm _
      rw [hs.unlocks]
      exact List.Perm.refl _
    · change k ∈ s.request.writeReservedKeys at hk
      rw [hs.reserved] at hk
      simp at hk
  · have hkeys' : s'.request.keys = keys := hr.keys.trans h.sameKeys
    have hcount' : s'.request.extraCount = extraCount := hr.extraCount.trans h.sameCount
    have htemp : ∀ k ∈ s'.request.writeReservedKeys, ∀ e, s'.l1.objects.get? k = some e →
        e.isTemporary = true := by
      intro k hk e he
      obtain ⟨_, i, hget⟩ := hr.fresh k hk
      obtain rfl := Option.some.inj (hget.symm.trans he)
      rfl
    have hrequested : ∀ k ∈ s'.request.writeReservedKeys, k ∈ keys := fun k hk =>
      h.sameKeys ▸ (hr.fresh k hk).1
    have houtside : ∀ k ∈ keys, k ∉ s'.request.writeReservedKeys →
        s'.l1.objects.get? k = initial.objects.get? k := fun k hk hnot => by
      refine (hr.kept k hnot).trans (h.outside k hk ?_)
      rw [hs.reserved]
      simp
    rcases hcases with ⟨hnone, heq⟩ | heq
    · rw [heq] at hlive ⊢
      have hsettling := (hr.load hlive).settling_nothing (hkeys'.symm ▸ hkeys)
        (hr.noLoads.trans hs.noLoads) hnone hr.nodup
      exact ⟨hkeys', hcount', hr.nodup, hrequested, htemp, houtside, stage_completeAfter hsettling⟩
    · rw [heq] at hlive ⊢
      refine ⟨hkeys', hcount', hr.nodup, hrequested, htemp, houtside, ?_⟩
      have hs' := hr.load hlive
      change Stage _ s'.progress
      rw [hr.progress, hrunning]
      exact .inr ⟨hs'.phase, hs'.sized, hs'.within, hs'.planned, hs'.unlocked, hs'.writing⟩

theorem settle_guarded (op : L1Step K) (ks : List K) (hkeys : op.keys = ks) (k : K)
    (c : Option (ℕ × ℕ)) :
    (if ks.isEmpty then [] else [op]).foldl (settle k) c = settle k c op := by
  split_ifs with hempty
  · rw [settle_of_not_mem]
    · rfl
    · rw [hkeys, isEmpty_iff.mp hempty]
      simp
  · rfl

theorem settle_finalized {loaded failed nonPrefix : List K} (extraCount : ℤ)
    (hfailed : k ∈ failed ↔ k ∉ loaded) :
    (finalCalls loaded failed nonPrefix extraCount).foldl (settle k) (some (1, 0)) =
      if k ∈ loaded ∧ k ∉ nonPrefix then some (0, 1 + validateExtraCount extraCount) else none := by
  rw [finalCalls, foldl_append, foldl_append,
    settle_guarded (.finishWriteAndReserveRead loaded extraCount) loaded rfl,
    settle_guarded (.finishRead nonPrefix extraCount) nonPrefix rfl]
  by_cases hload : k ∈ loaded
  · have hreading : settle k (some (1, 0)) (.finishWriteAndReserveRead loaded extraCount) =
        some (0, 1 + validateExtraCount extraCount) := by
      simp [settle, L1Step.keys, hload, book]
    rw [hreading, settle_cleanUp_of_not_mem (by simpa [hfailed] using hload)]
    by_cases hpast : k ∈ nonPrefix
    · simp [settle, L1Step.keys, hpast, book]
    · rw [if_pos ⟨hload, hpast⟩]
      exact settle_of_not_mem hpast _
  · have hwriting : settle k (some (1, 0)) (.finishWriteAndReserveRead loaded extraCount) =
        some (1, 0) := settle_of_not_mem hload _
    rw [hwriting, settle_cleanUp (hfailed.mpr hload), settle_none,
      if_neg fun h => hload h.1]

theorem InLoad.loaded_reserved (hs : InLoad s)
    (hk : k ∈ (resultBitmap s.request).gather s.request.keys) :
    k ∈ s.request.writeReservedKeys := by
  obtain ⟨i, htest, hi⟩ := mem_gather.mp hk
  obtain ⟨a, bm, hbm, hplan⟩ := (resultBitmap_spec s.request).2 i htest
  obtain ⟨k', hk', hi'⟩ := hs.planned a bm i hbm hplan
  exact Option.some.inj (hi.symm.trans hi') ▸ hk'

omit [DecidableEq K] in
theorem loaded_prefix_iff (request : InFlightPrefetchRequest K) (hnodup : request.keys.Nodup)
    (hk : k ∈ request.keys) :
    (k ∈ (resultBitmap request).gather request.keys ∧
      k ∉ ((resultBitmap request).and
        (ofPrefix request.keys.length (resultBitmap request).clo).not).gather request.keys) ↔
      k ∈ request.keys.take (resultBitmap request).clo := by
  obtain ⟨_, hlead, _⟩ := (resultBitmap request).clo_spec
  obtain ⟨i, hi⟩ := mem_iff_getElem?.mp hk
  have hlt : i < request.keys.length := (List.getElem?_eq_some_iff.mp hi).1
  rw [mem_gather_iff hnodup hi, mem_gather_iff hnodup hi, mem_take_iff hnodup hi]
  constructor
  · rintro ⟨htest, hnot⟩
    simpa [htest, hlt] using hnot
  · intro hi'
    simp [hlead i hi', hlt, hi']

theorem Balanced.finalize (h : Balanced initial keys extraCount s) (hs : InLoad s)
    (hkeys : keys.Nodup) (hnoLoads : s.request.pendingLoadTasks = []) :
    Balanced initial keys extraCount s.finalizeLoad := by
  have hloaded := fun k => hs.loaded_reserved (k := k)
  have hnodup : s.request.keys.Nodup := h.sameKeys.symm ▸ hkeys
  obtain ⟨_, hlead, _⟩ := (resultBitmap s.request).clo_spec
  refine ⟨h.sameKeys, h.sameCount, h.nodup, h.requested, h.temporary, h.outside, ?_⟩
  refine stage_completeAfter (s := s.unlockAllPlanKeys) ⟨.inl hs.phase, hnoLoads, fun a => ?_,
    fun k hk => ?_, fun op hop => ?_, fun k hk => ?_⟩
  · rw [unlocks_unlockAllPlanKeys, hs.unlocked a]
    exact unlocked_perm hnodup hs.sized hs.within a
  · obtain ⟨i, hi⟩ := mem_iff_getElem?.mp (mem_of_mem_take hk)
    have hlt := (mem_take_iff hnodup hi).mp hk
    exact hloaded k (mem_gather.mpr ⟨i, hlead i hlt, hi⟩)
  · rcases mem_append.mp hop with hop | hop
    · rcases mem_append.mp hop with hop | hop
      · split_ifs at hop
        · simp at hop
        · obtain rfl := mem_singleton.mp hop
          exact ⟨nodup_gather hnodup, hloaded⟩
      · exact closes_cleanUp (h.nodup.filter _) (fun k hk => mem_of_mem_filter hk) hop
    · split_ifs at hop
      · simp at hop
      · obtain rfl := mem_singleton.mp hop
        refine ⟨nodup_gather hnodup, fun k hk => hloaded k ?_⟩
        obtain ⟨i, htest, hi⟩ := mem_gather.mp hk
        rw [test_and, Bool.and_eq_true] at htest
        exact mem_gather.mpr ⟨i, htest.1, hi⟩
  · change _ = promised s _ k
    have hcounts : countsOf s.unlockAllPlanKeys.l1 s.unlockAllPlanKeys.now k = some (1, 0) :=
      hs.writing k hk
    have hmem : k ∈ s.request.keys := h.sameKeys.symm ▸ h.requested k hk
    rw [hcounts, settle_finalized]
    · rw [promised]
      exact if_congr (loaded_prefix_iff s.request hnodup hmem) rfl rfl
    · rw [mem_filter, decide_eq_true_eq]
      exact and_iff_right hk

variable {a : ℕ}

theorem Balanced.inLookup (h : Balanced initial keys extraCount s)
    (hphase : s.request.phase = .lookup) (ha : a ∈ s.request.pendingLookupTasks) :
    s.progress = .running ∧ InLookup s := by
  have hstage := h.stage
  have hquiet : ¬ (s.request.phase = .planAndLoad ∨ s.request.pendingLookupTasks = []) := by
    rw [hphase, not_or]
    exact ⟨by simp, ne_nil_of_mem ha⟩
  cases hp : s.progress with
  | running =>
    rw [hp] at hstage
    exact ⟨rfl, hstage.resolve_right fun hs => hquiet (.inl hs.phase)⟩
  | closing calls hits =>
    rw [hp] at hstage
    exact absurd hstage.phase hquiet
  | completed hits =>
    rw [hp] at hstage
    exact absurd hstage.phase hquiet

theorem Balanced.inLoad (h : Balanced initial keys extraCount s)
    (ha : a ∈ s.request.pendingLoadTasks) : s.progress = .running ∧ InLoad s := by
  have hstage := h.stage
  have hne : s.request.pendingLoadTasks ≠ [] := ne_nil_of_mem ha
  cases hp : s.progress with
  | running =>
    rw [hp] at hstage
    exact ⟨rfl, hstage.resolve_left fun hs => hne hs.noLoads⟩
  | closing calls hits =>
    rw [hp] at hstage
    exact absurd hstage.noLoads hne
  | completed hits =>
    rw [hp] at hstage
    exact absurd hstage.noLoads hne

variable {result : Bitmap}

omit [DecidableEq K] in
theorem InLookup.recordLookup (hs : InLookup s) (a : ℕ)
    (hsize : result.size = s.request.keys.length) : InLookup (s.recordLookup a result) := by
  refine ⟨hs.phase, hs.noLoads, hs.reserved, hs.unlocks, fun b bm hbm => ?_⟩
  change (s.request.lookupResults.set a result).get? b = some bm at hbm
  rw [Dict.get?_set] at hbm
  split_ifs at hbm
  · obtain rfl := Option.some.inj hbm
    exact hsize
  · exact hs.sized b bm hbm

theorem processLookupCompletion_of_not_pending
    (h : ¬ (s.request.phase = .lookup ∧ a ∈ s.request.pendingLookupTasks)) :
    s.processLookupCompletion a result granted = s := by
  rw [processLookupCompletion]
  by_cases hphase : s.request.phase = .lookup
  · rw [if_neg (not_not.mpr hphase), if_pos fun ha => h ⟨hphase, ha⟩]
  · rw [if_pos hphase]

theorem processLoadCompletion_of_not_pending
    (h : ¬ (s.request.phase = .planAndLoad ∧ a ∈ s.request.pendingLoadTasks)) :
    s.processLoadCompletion a result = s := by
  rw [processLoadCompletion]
  by_cases hphase : s.request.phase = .planAndLoad
  · rw [if_neg (not_not.mpr hphase), if_pos fun ha => h ⟨hphase, ha⟩]
  · rw [if_pos hphase]

theorem Balanced.lookupDone (h : Balanced initial keys extraCount s) (hkeys : keys.Nodup)
    (hsize : result.size = s.request.keys.length)
    (hlive : Unexpired (s.processLookupCompletion a result granted)) :
    Balanced initial keys extraCount (s.processLookupCompletion a result granted) := by
  by_cases hpending : s.request.phase = .lookup ∧ a ∈ s.request.pendingLookupTasks
  · obtain ⟨hrunning, hs⟩ := h.inLookup hpending.1 hpending.2
    have hs' := hs.recordLookup a hsize
    have h' : Balanced initial keys extraCount (s.recordLookup a result) := by
      refine ⟨h.sameKeys, h.sameCount, h.nodup, h.requested, h.temporary, h.outside, ?_⟩
      change Stage _ s.progress
      rw [hrunning]
      exact .inl hs'
    rw [processLookupCompletion, if_neg (not_not.mpr hpending.1), if_neg (not_not.mpr hpending.2)]
      at hlive ⊢
    dsimp only at hlive ⊢
    split_ifs at hlive ⊢
    · exact h'.transition hs' hrunning hkeys granted hlive
    · exact h'
  · rw [processLookupCompletion_of_not_pending hpending]
    exact h

theorem Balanced.loadDone (h : Balanced initial keys extraCount s) (hkeys : keys.Nodup)
    (a : ℕ) (result : Bitmap) : Balanced initial keys extraCount (s.processLoadCompletion a result) := by
  by_cases hpending : s.request.phase = .planAndLoad ∧ a ∈ s.request.pendingLoadTasks
  · obtain ⟨hrunning, hs⟩ := h.inLoad hpending.2
    have hs' : InLoad (s.recordLoad a result) :=
      ⟨hs.phase, hs.sized, hs.within, hs.planned, hs.unlocked, hs.writing⟩
    have h' : Balanced initial keys extraCount (s.recordLoad a result) := by
      refine ⟨h.sameKeys, h.sameCount, h.nodup, h.requested, h.temporary, h.outside, ?_⟩
      change Stage _ s.progress
      rw [hrunning]
      exact .inr hs'
    rw [processLoadCompletion, if_neg (not_not.mpr hpending.1), if_neg (not_not.mpr hpending.2)]
    dsimp only
    split_ifs with hall
    · exact h'.finalize hs' hkeys (isEmpty_iff.mp hall)
    · exact h'
  · rw [processLoadCompletion_of_not_pending hpending]
    exact h

theorem balanced_exec (hkeys : keys.Nodup) (s : PrefetchState K) (ev : PrefetchEvent K)
    (h : Balanced initial keys extraCount s) (hev : Admissible s ev ∧ Unexpired (s.exec ev)) :
    Balanced initial keys extraCount (s.exec ev) := by
  obtain ⟨hadmissible, hlive⟩ := hev
  cases ev with
  | lookupDone a result granted => exact h.lookupDone hkeys hadmissible hlive
  | loadDone a result => exact h.loadDone hkeys a result
  | call => exact h.call hlive
  | other op => exact h.other hadmissible hlive

def KeepsOthers (s : PrefetchState K) (ev : PrefetchEvent K) : Prop :=
  match ev with
  | .other _ => True
  | ev => ∀ k ∉ s.request.keys, (s.exec ev).l1.objects.get? k = s.l1.objects.get? k

theorem transition_keeps (hreserved : s.request.writeReservedKeys = []) (granted : Bool)
    (hk : k ∉ s.request.keys) :
    (s.transitionToLoadPhase granted).l1.objects.get? k = s.l1.objects.get? k := by
  have hkept : ∀ plan trimmed : Dict ℕ Bitmap,
      (s.enterLoadPhase.reserveBuffers plan trimmed granted).l1.objects.get? k =
        s.l1.objects.get? k := by
    intro plan trimmed
    obtain ⟨_, hfresh, hkept⟩ := s.enterLoadPhase.reserveBuffers_spec hreserved plan trimmed granted
    exact hkept k fun hmem => hk (hfresh k hmem).1
  simp only [transitionToLoadPhase]
  split_ifs
  · rfl
  · simp only [completeAfter, hkept]
  · simp only [submitLoadTasks, hkept]

theorem keepsOthers (hreserved : ∀ a, s.request.phase = .lookup →
      a ∈ s.request.pendingLookupTasks → s.request.writeReservedKeys = [])
    (hcalls : ∀ op calls hits, s.progress = .closing (op :: calls) hits →
      ∀ k ∉ s.request.keys, ¬ op.Touches k) (ev : PrefetchEvent K) : KeepsOthers s ev := by
  cases ev with
  | lookupDone a result granted =>
    intro k hk
    simp only [exec]
    by_cases hpending : s.request.phase = .lookup ∧ a ∈ s.request.pendingLookupTasks
    · have hnone := hreserved a hpending.1 hpending.2
      simp only [processLookupCompletion, if_neg (not_not.mpr hpending.1),
        if_neg (not_not.mpr hpending.2)]
      split_ifs
      · exact transition_keeps (s := s.recordLookup a result) hnone granted hk
      · rfl
    · rw [processLookupCompletion_of_not_pending hpending]
  | loadDone a result =>
    intro k hk
    simp only [exec, processLoadCompletion]
    split_ifs
    · rfl
    · rfl
    · rfl
    · rfl
  | call =>
    intro k hk
    cases hp : s.progress with
    | running => simp only [exec, hp]
    | completed hits => simp only [exec, hp]
    | closing calls hits =>
      cases calls with
      | nil => simp only [exec, hp]
      | cons op calls =>
        simp only [exec, hp]
        exact step_of_not_touches (hcalls op calls hits hp k hk)
  | other op => trivial

theorem keepsOthers_of_balanced (ev : PrefetchEvent K) (h : Balanced initial keys extraCount s) :
    KeepsOthers s ev := by
  refine keepsOthers (fun a hphase ha => (h.inLookup hphase ha).2.reserved)
    (fun op calls hits hp k hk => ?_) ev
  have hstage := h.stage
  rw [hp] at hstage
  obtain ⟨hclosing, hreserved⟩ := hstage.closing op mem_cons_self
  exact hclosing.not_touches fun hmem => hk (h.sameKeys.symm ▸ h.requested k (hreserved k hmem))

structure LocksAccounted (initial : L1Manager K) (keys : List K) (extraCount : ℤ) (prefixHits : ℕ)
    (s : PrefetchState K) : Prop where
  unlockedOnce : ∀ a, (unlockedOn s.unlocks a).Nodup
  unlocked : ∀ a k, k ∈ unlockedOn s.unlocks a ↔
    ∃ bm i, s.request.lookupResults.get? a = some bm ∧ bm.test i = true ∧ keys[i]? = some k
  readLocked : ∀ k ∈ keys.take prefixHits, ∃ e, s.l1.objects.get? k = some e ∧
    e.writeLock.held s.now = 0 ∧ (e.readLock.held s.now : ℤ) = 1 + extraCount
  released : ∀ k ∈ keys.drop prefixHits, s.l1.objects.get? k =
    if k ∈ s.request.writeReservedKeys then none else initial.objects.get? k

theorem Balanced.accounted (h : Balanced initial keys extraCount s) (hkeys : keys.Nodup)
    (hextra : 0 ≤ extraCount ∧ extraCount ≤ 127) (hdone : s.progress = .completed prefixHits) :
    LocksAccounted initial keys extraCount prefixHits s := by
  have hs := h.stage
  rw [hdone] at hs
  have hnodup : s.request.keys.Nodup := h.sameKeys.symm ▸ hkeys
  have hvalid : (validateExtraCount extraCount : ℤ) = extraCount := by
    rw [validateExtraCount, maxReadLockCount, if_neg (by omega), if_neg (by omega),
      Int.toNat_of_nonneg hextra.1]
  have hreported : ∀ a, (reportedOn s.request a).Nodup := by
    intro a
    rw [reportedOn]
    cases s.request.lookupResults.get? a with
    | none => exact nodup_nil
    | some bm => exact nodup_gather hnodup
  refine ⟨fun a => ?_, fun a k => ?_, fun k hk => ?_, fun k hk => ?_⟩
  · exact (hs.unlocked a).nodup_iff.mpr (hreported a)
  · rw [(hs.unlocked a).mem_iff, reportedOn, ← h.sameKeys]
    cases s.request.lookupResults.get? a with
    | none => simp
    | some bm => simp [mem_gather]
  · rw [← h.sameKeys] at hk
    have hcounts := hs.settled k (hs.hits k hk)
    rw [promised, if_pos hk, foldl_nil, countsOf, Option.map_eq_some_iff] at hcounts
    obtain ⟨e, he, hcounts⟩ := hcounts
    obtain ⟨hwrite, hread⟩ := Prod.ext_iff.mp hcounts
    refine ⟨e, he, hwrite, ?_⟩
    change e.readLock.held s.now = 1 + validateExtraCount s.request.extraCount at hread
    rw [h.sameCount] at hread
    omega
  · split_ifs with hreserved
    · have hnot : k ∉ s.request.keys.take prefixHits := by
        rw [h.sameKeys]
        intro htake
        exact disjoint_take_drop hkeys le_rfl htake hk
      have hcounts := hs.settled k hreserved
      rw [promised, if_neg hnot, foldl_nil, countsOf, Option.map_eq_none_iff] at hcounts
      exact hcounts
    · exact h.outside k (mem_of_mem_drop hk) hreserved

theorem locks_accounted (l1 : L1Manager K) (now : ℕ) (adapters : List AdapterDescriptor)
    {keys : List K} (hkeys : keys.Nodup) {extraCount : ℤ}
    (hextra : 0 ≤ extraCount ∧ extraCount ≤ 127) (events : List (PrefetchEvent K))
    (hrun : Execution.Along exec (fun s ev => Admissible s ev ∧ Unexpired (s.exec ev))
      (startLookupPhase l1 now adapters keys extraCount) events)
    {prefixHits : ℕ}
    (hdone : (final exec (startLookupPhase l1 now adapters keys extraCount)
      events).progress = .completed prefixHits) :
    LocksAccounted l1 keys extraCount prefixHits
        (final exec (startLookupPhase l1 now adapters keys extraCount) events) ∧
      Execution.Along exec KeepsOthers (startLookupPhase l1 now adapters keys extraCount) events := by
  have h0 := balanced_start l1 now adapters keys extraCount
  have hfinal := invariant_final (balanced_exec hkeys) h0 hrun
  exact ⟨hfinal.accounted hkeys hextra hdone,
    along_of_invariant (balanced_exec hkeys) (fun s ev h _ => keepsOthers_of_balanced ev h)
      h0 hrun⟩

def gapRun : List (PrefetchEvent ℕ) :=
  [.lookupDone 1 ((ofSize 3).set 1) true, .other (.reserveWrite true [99] [false] .new),
    .lookupDone 0 (((ofSize 3).set 0).set 2) true,
    .other (.advance 7),
    .loadDone 0 (ofPrefix 2 2),
    .loadDone 1 (ofSize 1),
    .call, .other (.finishWrite [99]), .call, .call, .call]

theorem locks_accounted_gap :
    LocksAccounted (init 600 300) [10, 20, 30] 1 1
        (final exec (startLookupPhase (init 600 300) 5 [⟨1⟩, ⟨0⟩] [10, 20, 30] 1) gapRun) ∧
      Execution.Along exec KeepsOthers
        (startLookupPhase (init 600 300) 5 [⟨1⟩, ⟨0⟩] [10, 20, 30] 1) gapRun := by
  exact locks_accounted (init 600 300) 5 [⟨1⟩, ⟨0⟩] (by decide) (by decide) gapRun
    (by decide +kernel) (by decide +kernel)

end PrefetchState

end LMCache
