import LMCache.Distributed.ReadLedger
import LMCache.Foundations.Execution
import LMCache.Multiprocess.BlendMatcher

namespace LMCache

open List

inductive RetrievePhase (K : Type) where
  | waiting
  | reading (keys goodKeys : List K) (failed : Bool)
  | leaving (keys : List K)
  | returned

-- mine counts the read locks of the request on each key, as long as they are there to be given back
structure BlendRead (K : Type) where
  l1 : L1Manager K
  now : ℕ
  mine : K → ℕ
  phase : RetrievePhase K

inductive BlendReadEvent (B K : Type) where
  | lookupCall (op : L1Step K)
  | other (op : L1Step K)
  | readPrefetchedResults (cbMatchResult : List (CBMatchResult B)) (copyRaises : Bool)
  | leaveContext
  | finishReadPrefetched

namespace L1Manager

variable {K : Type} [DecidableEq K]

def releasable (now : ℕ) : Option L1ObjectState → ℕ
  | none => 0
  | some e => if e.writeLock.isLocked now then 0 else e.readLock.held now

variable (m : L1Manager K) (now : ℕ)

def releasableAt (k : K) : ℕ := releasable now (m.objects.get? k)

variable (o : Option L1ObjectState)

theorem releasable_step :
    (if succeeds (finishReadKey now 1) o then 1 else 0) = min 1 (releasable now o) ∧
      releasable now (stepEntry (finishReadKey now 1) o) = releasable now o - 1 := by
  cases o with
  | none => exact ⟨rfl, rfl⟩
  | some e =>
    by_cases hwrite : e.writeLock.isLocked now = true
    · have hact : finishReadKey now 1 e = .refuse .keyInWrongState := if_pos hwrite
      simp [succeeds, stepEntry, hact, releasable, hwrite]
    · have hunlocked : e.writeLock.held now = 0 :=
        TTLLock.isLocked_eq_false_iff.mp (Bool.of_not_eq_true hwrite)
      rcases Nat.eq_zero_or_pos (e.readLock.held now) with hzero | hpos
      · have hfree := TTLLock.isLocked_eq_false_iff.mpr hzero
        have hact : finishReadKey now 1 e = .refuse .keyInWrongState := by
          simp [finishReadKey, hwrite, hfree]
        simp [succeeds, stepEntry, hact, releasable, hwrite, hzero]
      · have hact := finishReadKey_of_held 1 hunlocked hpos
        by_cases hlast : e.isTemporary = true ∧ e.readLock.held now ≤ 1
        · rw [if_pos hlast] at hact
          simp only [succeeds, stepEntry, hact, releasable, if_neg hwrite, if_true]
          omega
        · rw [if_neg hlast] at hact
          simp only [succeeds, stepEntry, hact, releasable, if_neg hwrite, if_true]
          rw [TTLLock.held_unlockTimes]
          omega

theorem hits_releasable (now n : ℕ) (o : Option L1ObjectState) :
    hits (finishReadKey now 1) n o = min n (releasable now o) ∧
      releasable now ((stepEntry (finishReadKey now 1))^[n] o) = releasable now o - n := by
  induction n generalizing o with
  | zero => simp [hits]
  | succ n ih =>
    obtain ⟨hhit, hleft⟩ := releasable_step now o
    obtain ⟨hhits, hrest⟩ := ih (stepEntry (finishReadKey now 1) o)
    rw [hits, hhit, hhits, Function.iterate_succ_apply, hrest, hleft]
    omega

variable (keys : List K)

theorem count_returned (k : K) :
    (m.readReturned now (.finishRead keys 0)).count k =
      min (keys.count k) (m.releasableAt now k) := by
  rw [readReturned, finishReadPass, (keyPass_count _ _ _).2]
  exact (hits_releasable now _ _).1

theorem releasableAt_finishRead (k : K) :
    (m.step now (.finishRead keys 0)).releasableAt now k = m.releasableAt now k - keys.count k := by
  have hget := (keyPass_count (d := L1Error.keyNotExist)
    (f := finishReadKey now (1 + validateExtraCount 0)) keys k m.objects).1
  change (m.step now (.finishRead keys 0)).objects.get? k = _ at hget
  rw [releasableAt, hget]
  exact (hits_releasable now _ _).2

def goodKeys (readResults : Dict K L1OperationResult) : List K :=
  (readResults.items.filter fun entry => entry.2.2.isSome).map Prod.fst

def readLocked (k : K) : Bool :=
  (m.objects.get? k).any fun e => e.readLock.isLocked now

theorem isSome_unsafeReadKey :
    (replyOf ((.keyNotExist, none) : L1OperationResult) (unsafeReadKey now) o).2.isSome =
      o.any fun e => e.readLock.isLocked now := by
  cases o with
  | none => rfl
  | some e => cases hlocked : e.readLock.isLocked now <;> simp [replyOf, unsafeReadKey, hlocked]

theorem mem_goodKeys (k : K) :
    k ∈ goodKeys (m.unsafeRead now keys) ↔ k ∈ keys ∧ m.readLocked now k = true := by
  have hentry : k ∈ goodKeys (m.unsafeRead now keys) ↔
      ∃ result, (m.unsafeRead now keys).get? k = some result ∧ result.2.isSome = true := by
    simp [goodKeys, Dict.get?_eq_some_iff]
  rw [hentry, get?_unsafeRead, readLocked, ← isSome_unsafeReadKey]
  by_cases hk : k ∈ keys <;> simp [hk]

omit [DecidableEq K] in
theorem nodup_goodKeys (readResults : Dict K L1OperationResult) : (goodKeys readResults).Nodup :=
  readResults.nodup.sublist (filter_sublist.map _)

theorem allGood_iff :
    ((m.unsafeRead now keys).values.all fun result => result.2.isSome) = true ↔
      ∀ k ∈ keys, m.readLocked now k = true := by
  rw [all_eq_true]
  constructor
  · intro hall k hk
    have hget := get?_unsafeRead m now keys k
    rw [if_pos hk] at hget
    have hgood := hall _ ((Dict.mem_values_iff _ _).mpr ⟨k, hget⟩)
    rw [isSome_unsafeReadKey] at hgood
    exact hgood
  · intro hall result hresult
    obtain ⟨k, hget⟩ := (Dict.mem_values_iff _ _).mp hresult
    rw [get?_unsafeRead] at hget
    split_ifs at hget with hk
    obtain rfl := Option.some.inj hget
    rw [isSome_unsafeReadKey]
    exact hall k hk

theorem releasableAt_of_not_readLocked {m : L1Manager K} {now : ℕ} {k : K}
    (h : m.readLocked now k = false) : m.releasableAt now k = 0 := by
  rw [releasableAt]
  cases hget : m.objects.get? k with
  | none => rfl
  | some e =>
    rw [readLocked, hget, Option.any_some] at h
    simp [releasable, TTLLock.isLocked_eq_false_iff.mp h]

end L1Manager

namespace BlendRead

open L1Manager

variable {B K : Type} [DecidableEq K] (l1 : L1Manager K)

def start (now : ℕ) : BlendRead K := ⟨l1, now, fun _ => 0, .waiting⟩

def still (now : ℕ) (mine : K → ℕ) (k : K) : ℕ :=
  min (mine k) (l1.releasableAt now k)

variable (s : BlendRead K)

def others (k : K) : ℕ := s.l1.releasableAt s.now k - s.mine k

def allObjKeys (objectKeys : List B → List K) (cbMatchResult : List (CBMatchResult B)) : List K :=
  objectKeys ((cbMatchResult.insertionSort fun a b => a.curSt ≤ b.curSt).map CBMatchResult.hash)

def call (op : L1Step K) : BlendRead K :=
  { s with
    l1 := s.l1.step s.now op
    now := op.tick s.now
    mine := still (s.l1.step s.now op) (op.tick s.now) (s.l1.charge s.now op s.mine) }

def otherCall (op : L1Step K) : BlendRead K :=
  { s with
    l1 := s.l1.step s.now op
    now := op.tick s.now
    mine := still (s.l1.step s.now op) (op.tick s.now) s.mine }

def readPrefetchedResults (keys : List K) (copyRaises : Bool) : BlendRead K :=
  match s.phase with
  | .waiting =>
      let readResults := s.l1.unsafeRead s.now keys
      let allGood := readResults.values.all fun result => result.2.isSome
      { s with phase := .reading keys (goodKeys readResults) (!allGood || copyRaises) }
  | _ => s

def leaveContext : BlendRead K :=
  match s.phase with
  | .reading keys good failed =>
      { (if failed then s.call (.finishRead good 0) else s) with phase := .leaving keys }
  | _ => s

def finishReadPrefetched : BlendRead K :=
  match s.phase with
  | .leaving keys => { s.call (.finishRead keys 0) with phase := .returned }
  | _ => s

def exec (objectKeys : List B → List K) (s : BlendRead K) : BlendReadEvent B K → BlendRead K
  | .lookupCall op => s.call op
  | .other op => s.otherCall op
  | .readPrefetchedResults cbMatchResult copyRaises =>
      s.readPrefetchedResults (allObjKeys objectKeys cbMatchResult) copyRaises
  | .leaveContext => s.leaveContext
  | .finishReadPrefetched => s.finishReadPrefetched

def givesBack : BlendReadEvent B K → List K
  | .leaveContext =>
      match s.phase with
      | .reading _ good true => good
      | _ => []
  | .finishReadPrefetched =>
      match s.phase with
      | .leaving keys => keys
      | _ => []
  | _ => []

def ReleasesOwn (event : BlendReadEvent B K) : Prop :=
  ∀ k, (s.l1.readReturned s.now (.finishRead (s.givesBack event) 0)).count k =
    min (s.mine k) ((s.givesBack event).count k)

def Covered (event : BlendReadEvent B K) : Prop :=
  ∀ k ∈ s.givesBack event, s.others k = 0 ∨ (s.givesBack event).count k ≤ s.mine k

def Counted : Prop := ∀ k, s.mine k ≤ s.l1.releasableAt s.now k

variable {s : BlendRead K}

theorem counted_start (now : ℕ) : (start l1 now).Counted :=
  fun _ => Nat.zero_le _

theorem counted_call (s : BlendRead K) (op : L1Step K) : (s.call op).Counted :=
  fun _ => Nat.min_le_right _ _

theorem Counted.exec (h : s.Counted) (objectKeys : List B → List K) (event : BlendReadEvent B K) :
    (s.exec objectKeys event).Counted := by
  cases event with
  | lookupCall op => exact counted_call s op
  | other op => exact fun _ => Nat.min_le_right _ _
  | readPrefetchedResults cbMatchResult copyRaises =>
    rw [BlendRead.exec, BlendRead.readPrefetchedResults]
    split
    exacts [h, h]
  | leaveContext =>
    rw [BlendRead.exec, BlendRead.leaveContext]
    split
    · split_ifs
      exacts [counted_call s _, h]
    · exact h
  | finishReadPrefetched =>
    rw [BlendRead.exec, BlendRead.finishReadPrefetched]
    split
    exacts [counted_call s _, h]

theorem releasesOwn_step_iff (h : s.Counted) (event : BlendReadEvent B K) :
    s.ReleasesOwn event ↔ s.Covered event := by
  have hkey : ∀ k, (s.l1.readReturned s.now (.finishRead (s.givesBack event) 0)).count k =
      min (s.mine k) ((s.givesBack event).count k) ↔
        (k ∈ s.givesBack event → s.others k = 0 ∨ (s.givesBack event).count k ≤ s.mine k) := by
    intro k
    have hle := h k
    rw [count_returned, others]
    by_cases hmem : k ∈ s.givesBack event
    · have hpos := count_pos_iff.mpr hmem
      rw [forall_prop_of_true hmem]
      omega
    · rw [count_eq_zero_of_not_mem hmem]
      exact iff_of_true (by simp) fun hk => absurd hk hmem
  exact forall_congr' hkey

open Execution

theorem releasesOwn_iff (objectKeys : List B → List K) (h : s.Counted)
    (events : List (BlendReadEvent B K)) :
    Along (exec objectKeys) ReleasesOwn s events ↔ Along (exec objectKeys) Covered s events :=
  along_iff_along (Q := fun _ _ => True) (I := Counted)
    (fun _ event h _ _ => h.exec objectKeys event)
    (fun _ event h _ => releasesOwn_step_iff h event) h (along_of_forall (fun _ _ => trivial) _ _)

def retrieve (cbMatchResult : List (CBMatchResult B)) (copyRaises : Bool) :
    List (BlendReadEvent B K) :=
  [.readPrefetchedResults cbMatchResult copyRaises, .leaveContext, .finishReadPrefetched]

structure Ready (s : BlendRead K) (keys : List K) : Prop where
  waiting : s.phase = .waiting
  counted : s.Counted
  held : ∀ k ∈ keys, s.mine k = keys.count k ∨ s.l1.releasableAt s.now k = 0

section Atomic

variable {keys good : List K} {failed : Bool}

theorem mine_call_finishRead (h : s.Counted) (keys : List K) (k : K) :
    (s.call (.finishRead keys 0)).mine k = s.mine k - keys.count k ∧
      (s.call (.finishRead keys 0)).others k = s.others k - (keys.count k - s.mine k) := by
  have hmine : (s.call (.finishRead keys 0)).mine k = s.mine k - keys.count k := by
    have hle := h k
    change min (s.mine k + 0 * 1 - (s.l1.readReturned s.now (.finishRead keys 0)).count k * 1)
      ((s.l1.step s.now (.finishRead keys 0)).releasableAt s.now k) = _
    rw [count_returned, releasableAt_finishRead]
    omega
  refine ⟨hmine, ?_⟩
  have hle := h k
  change (s.l1.step s.now (.finishRead keys 0)).releasableAt s.now k - _ = _
  rw [hmine, releasableAt_finishRead, others]
  omega

variable {k : K}

theorem Ready.covered (h : s.Ready keys) (hk : k ∈ keys) :
    s.others k = 0 ∨ keys.count k ≤ s.mine k := by
  rcases h.held k hk with hall | hgone
  · exact .inr hall.ge
  · exact .inl (by rw [others, hgone, Nat.zero_sub])

theorem Ready.covered_good (h : s.Ready keys) (hnodup : good.Nodup) (hgood : k ∈ good)
    (hk : k ∈ keys) : s.others k = 0 ∨ good.count k ≤ s.mine k := by
  have hpos := count_pos_iff.mpr hk
  rw [count_eq_one_of_mem hnodup hgood]
  exact (h.covered hk).imp_right hpos.trans_le

theorem Ready.covered_after (h : s.Ready keys) (hnodup : good.Nodup) (hk : k ∈ keys)
    (hbad : k ∉ good → s.l1.releasableAt s.now k = 0) :
    ((s.call (.finishRead good 0)).others k = 0 ∨
        keys.count k ≤ (s.call (.finishRead good 0)).mine k) ↔ s.others k = 0 := by
  obtain ⟨hmine, hothers⟩ := mine_call_finishRead h.counted good k
  have hpos := count_pos_iff.mpr hk
  have hcounted := h.counted k
  rw [hmine, hothers]
  by_cases hgood : k ∈ good
  · rw [count_eq_one_of_mem hnodup hgood]
    rcases h.held k hk with hall | hgone
    · omega
    · rw [others, hgone]
      omega
  · rw [count_eq_zero_of_not_mem hgood, others, hbad hgood]
    omega

variable {cbMatchResult : List (CBMatchResult B)} {objectKeys : List B → List K} {copyRaises : Bool}

theorem along_covered_iff (hwaiting : s.phase = .waiting)
    (hkeys : allObjKeys objectKeys cbMatchResult = keys)
    (hfailed : (!((s.l1.unsafeRead s.now keys).values.all fun result => result.2.isSome) ||
      copyRaises) = failed) :
    Along (exec objectKeys) Covered s (retrieve cbMatchResult copyRaises) ↔
      if failed then
        (∀ k ∈ goodKeys (s.l1.unsafeRead s.now keys), s.others k = 0 ∨
          (goodKeys (s.l1.unsafeRead s.now keys)).count k ≤ s.mine k) ∧
        ∀ k ∈ keys, (s.call (.finishRead (goodKeys (s.l1.unsafeRead s.now keys)) 0)).others k = 0 ∨
          keys.count k ≤ (s.call (.finishRead (goodKeys (s.l1.unsafeRead s.now keys)) 0)).mine k
      else ∀ k ∈ keys, s.others k = 0 ∨ keys.count k ≤ s.mine k := by
  have hnone : s.Covered (.readPrefetchedResults cbMatchResult copyRaises) :=
    fun k hk => absurd hk not_mem_nil
  rw [retrieve, along_cons, and_iff_right hnone, exec, readPrefetchedResults, hwaiting, hkeys]
  dsimp only
  rw [hfailed, along_cons, exec, leaveContext, along_cons, and_iff_left (along_nil _)]
  cases failed with
  | true => exact Iff.rfl
  | false => exact and_iff_right fun k hk => absurd hk not_mem_nil

theorem Ready.retrieve_iff (h : s.Ready (allObjKeys objectKeys cbMatchResult)) :
    Along (exec objectKeys) ReleasesOwn s (retrieve cbMatchResult copyRaises) ↔
      (∀ k ∈ allObjKeys objectKeys cbMatchResult, s.l1.readLocked s.now k = true) ∧
          copyRaises = false ∨
        ∀ k ∈ allObjKeys objectKeys cbMatchResult, s.others k = 0 := by
  generalize hkeys : allObjKeys objectKeys cbMatchResult = keys at h ⊢
  rw [releasesOwn_iff objectKeys h.counted, along_covered_iff h.waiting hkeys rfl, ← allGood_iff]
  have hnodup := nodup_goodKeys (s.l1.unsafeRead s.now keys)
  split_ifs with hfailed
  · have hnot : ¬ (((s.l1.unsafeRead s.now keys).values.all fun result => result.2.isSome) = true ∧
        copyRaises = false) := by
      rintro ⟨hall, hcopied⟩
      simp [hall, hcopied] at hfailed
    rw [or_iff_right hnot, and_iff_right]
    · refine forall₂_congr fun k hk => h.covered_after hnodup hk fun hbad => ?_
      exact releasableAt_of_not_readLocked (Bool.of_not_eq_true fun hlocked =>
        hbad ((mem_goodKeys _ _ _ _).mpr ⟨hk, hlocked⟩))
    · exact fun k hgood => h.covered_good hnodup hgood ((mem_goodKeys _ _ _ _).mp hgood).1
  · refine iff_of_true (fun k hk => h.covered hk) (.inl ?_)
    simpa only [Bool.or_eq_true, Bool.not_eq_true', not_or, Bool.not_eq_false,
      Bool.not_eq_true] using hfailed

end Atomic

theorem releasesOnce_iff (objectKeys : List B → List K) :
    (∀ (l1 : L1Manager K) (now : ℕ) (events : List (BlendReadEvent B K)),
      Along (exec objectKeys) ReleasesOwn (start l1 now) events ↔
        Along (exec objectKeys) Covered (start l1 now) events) ∧
    ∀ (s : BlendRead K) (cbMatchResult : List (CBMatchResult B)) (copyRaises : Bool),
      s.Ready (allObjKeys objectKeys cbMatchResult) →
      (Along (exec objectKeys) ReleasesOwn s (retrieve cbMatchResult copyRaises) ↔
        (∀ k ∈ allObjKeys objectKeys cbMatchResult, s.l1.readLocked s.now k = true) ∧
            copyRaises = false ∨
          ∀ k ∈ allObjKeys objectKeys cbMatchResult, s.others k = 0) :=
  ⟨fun l1 now => releasesOwn_iff objectKeys (counted_start l1 now), fun _ _ _ h => h.retrieve_iff⟩

def sharedChunk : BlendRead ℕ :=
  let stored := ((L1Manager.init 60 60).step 0 (.reserveWrite true [7] [false] .new)).step 0
    (.finishWrite [7])
  ((start stored 0).otherCall (.reserveRead [7] 0)).call (.reserveRead [7] 0)

theorem releasesOnce_sharedChunk :
    Along (exec id) ReleasesOwn sharedChunk (retrieve [⟨0, 4, 0, 4, 7⟩] false) :=
  ((releasesOnce_iff id).2 sharedChunk [⟨0, 4, 0, 4, 7⟩] false
    ⟨rfl, counted_call _ _, by decide⟩).mpr (.inl ⟨by decide, rfl⟩)

theorem not_releasesOnce_copyRaises :
    ¬ Along (exec id) ReleasesOwn sharedChunk (retrieve [⟨0, 4, 0, 4, 7⟩] true) := by
  rintro ⟨_, _, hlast, _⟩
  exact absurd (hlast 7) (by decide)

end BlendRead

end LMCache
