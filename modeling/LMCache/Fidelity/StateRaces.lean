import LMCache.Fidelity.StateStore
import LMCache.Foundations.Execution

namespace LMCache

open UpdateCall UpdatePhase List FidelityState

variable {P : Type}

namespace StateWrite

def Enters (write : StateWrite P) (state : FidelityState) : Prop :=
  write.new = state ∧ write.old ≠ state

instance (write : StateWrite P) (state : FidelityState) : Decidable (write.Enters state) :=
  inferInstanceAs (Decidable (_ ∧ _))

@[mk_iff] structure Safe (write : StateWrite P) : Prop where
  base : write.call.fidelityLevel = .base → write.new ≠ write.old →
    write.old ≠ .promoting ∧ write.old ≠ .fullReady ∧
      (write.call.kind ≠ .store → write.old ≠ .fullEvicted)
  full : write.new = .fullReady → write.call.CompletesFull
  evicted : write.Enters .fullEvicted → write.old = .fullReady

variable {call : UpdateCall P} {current now next : FidelityState}

theorem safe_iff_decided (h : (call.afterGet current).target = some next) :
    Safe ⟨call, now, next⟩ ↔ now = next ∨ (call.afterGet now).target = some next := by
  obtain ⟨kind, level, prefixId⟩ := call
  rw [safe_iff, Enters]
  cases kind with
  | store =>
    cases level with
    | full =>
      obtain rfl : fullReady = next := by
        simpa [afterGet, target] using h
      simp [UpdateCall.CompletesFull, afterGet, target]
    | base =>
      obtain rfl : baseReady = next := by
        rw [afterGet] at h
        dsimp only at h
        split_ifs at h
        · exact absurd h (by simp [target])
        · exact Option.some.inj h
      cases now <;> simp [afterGet, target]
  | retrieve retrievedTokens promotionEnabled =>
    rcases Int.lt_or_le 0 retrievedTokens with hhit | hmiss
    · have hpos : ¬ retrievedTokens ≤ 0 := Int.not_le.mpr hhit
      cases level with
      | full =>
        obtain rfl : fullReady = next := by
          simpa [afterGet, target, hpos] using h
        simp [UpdateCall.CompletesFull, afterGet, target, hpos, hhit]
      | base =>
        obtain rfl : baseReady = next := by
          simp only [afterGet, if_neg hpos] at h
          split_ifs at h
          · exact Option.some.inj h
          · exact absurd h (by simp [target])
        cases now <;> simp [afterGet, target, hpos]
    · cases level with
      | full =>
        obtain rfl : fullEvicted = next := by
          simp only [afterGet, if_pos hmiss] at h
          split_ifs at h
          · exact Option.some.inj h
          · exact absurd h (by simp [target])
        cases now <;> simp [afterGet, target, hmiss]
      | base =>
        exact absurd h (by simp [afterGet, target, hmiss])

end StateWrite

variable [DecidableEq P]

namespace StateWrite

def promotions (prefixId : P) (writes : List (StateWrite P)) : ℕ :=
  writes.foldl (fun n write =>
    if write.call.prefixId = prefixId then
      if write.new = .fullReady then 0 else if write.Enters .promoting then n + 1 else n
    else n) 0

theorem promotions_append (prefixId : P) (writes : List (StateWrite P)) (write : StateWrite P) :
    promotions prefixId (writes ++ [write]) =
      if write.call.prefixId = prefixId then
        if write.new = .fullReady then 0
        else if write.Enters .promoting then promotions prefixId writes + 1
        else promotions prefixId writes
      else promotions prefixId writes := by
  rw [promotions, foldl_append]
  rfl

end StateWrite

namespace FidelityRun

open Execution StateWrite

structure NeverRegresses (run : FidelityRun P) : Prop where
  safe : ∀ write ∈ run.writes, write.Safe
  promotedOnce : ∀ writes rest, run.writes = writes ++ rest →
    ∀ prefixId, promotions prefixId writes ≤ 1

def Timely (run : FidelityRun P) : FidelityEvent P → Prop
  | .request _ => True
  | .step callId => ∀ call next, run.calls[callId]? = some (call, .writing next) →
      run.stateStore.get call.prefixId = next ∨
        (call.afterGet (run.stateStore.get call.prefixId)).target = some next

def Inv (run : FidelityRun P) : Prop := ∀ c ∈ run.calls, c.1.Sound c.2

variable {run : FidelityRun P} {call : UpdateCall P} {phase : UpdatePhase} {callId : ℕ}
  {next : FidelityState}

inductive Stepped (run run' : FidelityRun P) (call : UpdateCall P) (phase : UpdatePhase) : Prop where
  | quiet (store : run'.stateStore = run.stateStore) (writes : run'.writes = run.writes)
      (hphase : ∀ next, phase ≠ .writing next)
  | wrote (next : FidelityState) (hphase : phase = .writing next)
      (store : ∀ prefixId, run'.stateStore.get prefixId =
        if call.prefixId = prefixId then next else run.stateStore.get prefixId)
      (writes : run'.writes = run.writes ++ [⟨call, run.stateStore.get call.prefixId, next⟩])
  | promoted (hphase : phase = .promoting) (ready : run.stateStore.get call.prefixId = .baseReady)
      (store : ∀ prefixId, run'.stateStore.get prefixId =
        if call.prefixId = prefixId then .promoting else run.stateStore.get prefixId)
      (writes : run'.writes = run.writes ++ [⟨call, .baseReady, .promoting⟩])

theorem stepped_stepCall (run : FidelityRun P) (callId : ℕ) (call : UpdateCall P)
    (phase : UpdatePhase) : Stepped run (run.stepCall callId call phase) call phase := by
  cases phase with
  | reading | resetting | forgetting | checking | done => exact .quiet rfl rfl (by simp)
  | recording current => exact .quiet rfl rfl (by simp)
  | writing next =>
    exact .wrote next rfl (fun prefixId => FidelityStateStore.get_set _ _ _ _ _) rfl
  | promoting =>
    have hget := fun prefixId => run.stateStore.get_transition call.prefixId prefixId
      .baseReady .promoting "hotness_threshold"
    have heq := run.stateStore.transition_eq call.prefixId .baseReady .promoting "hotness_threshold"
    rw [stepCall, promote]
    split
    · rename_i stateStore htransition
      rw [htransition] at hget heq
      have hready : run.stateStore.get call.prefixId = .baseReady := of_decide_eq_true heq.symm
      refine .promoted rfl hready (fun prefixId => (hget prefixId).trans ?_) rfl
      simp [hready]
    · exact .quiet rfl rfl (by simp)

theorem calls_stepCall (h : call.Sound phase) (hcall : run.calls[callId]? = some (call, phase)) :
    ∀ c ∈ (run.stepCall callId call phase).calls, c ∈ run.calls ∨ c.1.Sound c.2 := by
  have hset : ∀ phase', call.Sound phase' →
      ∀ c ∈ run.calls.set callId (call, phase'), c ∈ run.calls ∨ c.1.Sound c.2 := by
    intro phase' hsound c hc
    rcases mem_or_eq_of_mem_set hc with hmem | rfl
    · exact .inl hmem
    · exact .inr hsound
  have hplain : ∀ phase', phase'.target = none → phase' ≠ .promoting →
      (∀ current, phase' ≠ .recording current) →
      ∀ c ∈ run.calls.set callId (call, phase'), c ∈ run.calls ∨ c.1.Sound c.2 :=
    fun phase' htarget hpromoting hrecording =>
      hset phase' (sound_plain htarget hpromoting hrecording)
  cases phase with
  | reading => exact hset _ (sound_afterGet call _)
  | resetting =>
    refine hset _ ⟨fun next hnext => h.target next hnext, fun hbase => ?_⟩
    exact absurd hbase (by simp)
  | writing next =>
    obtain ⟨current, hcurrent⟩ := h.target next rfl
    exact hset _ (sound_afterSet hcurrent)
  | forgetting | checking => exact hplain .done rfl (by simp) (by simp)
  | recording current =>
    have hbase := h.base (.inr ⟨current, rfl⟩)
    rw [stepCall, record]
    dsimp only
    split_ifs
    · exact hset _ ⟨fun _ hnext => absurd hnext (by simp [target]), fun _ => hbase⟩
    · exact hplain .done rfl (by simp) (by simp)
  | promoting =>
    rw [stepCall, promote]
    split
    · exact hplain .done rfl (by simp) (by simp)
    · exact hplain .checking rfl (by simp) (by simp)
  | done => exact fun c hc => .inl hc

theorem Inv.exec (h : run.Inv) (event : FidelityEvent P) : (run.exec event).Inv := by
  intro c hc
  cases event with
  | request req =>
    rw [FidelityRun.exec] at hc
    split at hc
    · exact h c hc
    · rcases mem_append.mp hc with hmem | hnew
      · exact h c hmem
      · rw [mem_singleton.mp hnew]
        exact sound_plain rfl (by simp) (by simp)
  | step callId =>
    rw [FidelityRun.exec] at hc
    split at hc
    · exact h c hc
    · rename_i call phase hcall
      exact (calls_stepCall (h _ (mem_of_getElem? hcall)) hcall c hc).elim (h c) id

def AllSafe (run : FidelityRun P) : Prop := ∀ write ∈ run.writes, write.Safe

theorem allSafe_exec_iff (h : run.Inv) (event : FidelityEvent P) :
    (run.exec event).AllSafe ↔ run.AllSafe ∧ run.Timely event := by
  cases event with
  | request req =>
    rw [FidelityRun.exec]
    split <;> exact (and_iff_left trivial).symm
  | step callId =>
    rw [FidelityRun.exec, Timely]
    split
    · rename_i hnone
      refine (and_iff_left fun call next hcall => ?_).symm
      exact absurd (hnone.symm.trans hcall) (by simp)
    · rename_i call phase hcall
      have hsound := h _ (mem_of_getElem? hcall)
      have hsnoc : ∀ write : StateWrite P, (∀ w ∈ run.writes ++ [write], w.Safe) ↔
          run.AllSafe ∧ write.Safe := fun write => by
        simp only [mem_append, mem_singleton, or_imp, forall_and, forall_eq]
        rfl
      have hthis : ∀ call' next, run.calls[callId]? = some (call', .writing next) →
          call' = call ∧ phase = .writing next := fun call' next hcall' => by
        obtain ⟨rfl, rfl⟩ := Prod.mk.inj (Option.some.inj (hcall.symm.trans hcall'))
        exact ⟨rfl, rfl⟩
      cases stepped_stepCall run callId call phase with
      | quiet store writes hphase =>
        rw [AllSafe, writes]
        refine (and_iff_left fun call' next hcall' => ?_).symm
        exact absurd (hthis call' next hcall').2 (hphase next)
      | wrote next hphase store writes =>
        subst hphase
        obtain ⟨current, hcurrent⟩ := hsound.target next rfl
        rw [AllSafe, writes, hsnoc, safe_iff_decided hcurrent]
        refine and_congr_right fun _ => ⟨fun hdecided call' next' hcall' => ?_, fun htimely => ?_⟩
        · obtain ⟨rfl, hnext⟩ := hthis call' next' hcall'
          obtain rfl := writing.inj hnext
          exact hdecided
        · exact htimely call next hcall
      | promoted hphase ready store writes =>
        rw [AllSafe, writes, hsnoc]
        refine and_congr_right fun _ => ⟨fun _ call' next' hcall' => ?_, fun _ => ?_⟩
        · exact absurd (hthis call' next' hcall').2 (by simp [hphase])
        · rw [safe_iff]
          simp [Enters]

structure PromotedAtMostOnce (run : FidelityRun P) : Prop where
  once : ∀ writes rest, run.writes = writes ++ rest →
    ∀ prefixId, promotions prefixId writes ≤ 1
  promoting : ∀ prefixId, promotions prefixId run.writes ≠ 0 →
    run.stateStore.get prefixId = .promoting

variable {run' : FidelityRun P}

theorem PromotedAtMostOnce.snoc {write : StateWrite P} (h : run.PromotedAtMostOnce)
    (hwrites : run'.writes = run.writes ++ [write])
    (honce : ∀ prefixId, promotions prefixId (run.writes ++ [write]) ≤ 1)
    (hpromoting : ∀ prefixId, promotions prefixId (run.writes ++ [write]) ≠ 0 →
      run'.stateStore.get prefixId = .promoting) : run'.PromotedAtMostOnce where
  once writes rest heq prefixId := by
    rw [hwrites] at heq
    rcases eq_nil_or_concat rest with rfl | ⟨rest', last, rfl⟩
    · rw [← (append_nil writes), ← heq]
      exact honce prefixId
    · rw [concat_eq_append, ← append_assoc] at heq
      exact h.once writes rest' (append_inj_left' heq rfl) prefixId
  promoting prefixId hne := by
    rw [hwrites] at hne
    exact hpromoting prefixId hne

theorem PromotedAtMostOnce.wrote (h : run.PromotedAtMostOnce) (hnext : next ≠ .promoting)
    (hstore : ∀ prefixId, run'.stateStore.get prefixId =
      if call.prefixId = prefixId then next else run.stateStore.get prefixId)
    (hwrites : run'.writes = run.writes ++ [⟨call, run.stateStore.get call.prefixId, next⟩])
    (hleaves : run.stateStore.get call.prefixId = .promoting → next = .fullReady) :
    run'.PromotedAtMostOnce := by
  have hcount : ∀ prefixId, promotions prefixId (run.writes ++
      [⟨call, run.stateStore.get call.prefixId, next⟩]) =
      if call.prefixId = prefixId ∧ next = .fullReady then 0
      else promotions prefixId run.writes := fun prefixId => by
    rw [promotions_append]
    simp only [Enters, hnext, false_and, if_false]
    split_ifs <;> simp_all
  refine h.snoc hwrites (fun prefixId => ?_) fun prefixId hne => ?_
  · rw [hcount]
    split_ifs
    · exact Nat.zero_le 1
    · exact h.once run.writes [] (append_nil _).symm prefixId
  · rw [hcount] at hne
    split_ifs at hne with hboth
    · exact absurd rfl hne
    · have hpromoting := h.promoting prefixId hne
      rw [hstore]
      split_ifs with heq
      · exact absurd ⟨heq, hleaves (heq ▸ hpromoting)⟩ hboth
      · exact hpromoting

theorem PromotedAtMostOnce.promote (h : run.PromotedAtMostOnce)
    (hready : run.stateStore.get call.prefixId = .baseReady)
    (hstore : ∀ prefixId, run'.stateStore.get prefixId =
      if call.prefixId = prefixId then .promoting else run.stateStore.get prefixId)
    (hwrites : run'.writes = run.writes ++ [⟨call, .baseReady, .promoting⟩]) :
    run'.PromotedAtMostOnce := by
  have hcount : ∀ prefixId, promotions prefixId (run.writes ++ [⟨call, .baseReady, .promoting⟩]) =
      promotions prefixId run.writes + if call.prefixId = prefixId then 1 else 0 := fun prefixId => by
    rw [promotions_append]
    simp only [Enters]
    split_ifs <;> simp_all
  have hnone : promotions call.prefixId run.writes = 0 := by
    by_contra hne
    exact absurd ((h.promoting call.prefixId hne).symm.trans hready) (by simp)
  refine h.snoc hwrites (fun prefixId => ?_) fun prefixId hne => ?_
  · rw [hcount]
    split_ifs with heq
    · have hfirst : promotions prefixId run.writes = 0 := heq ▸ hnone
      omega
    · exact h.once run.writes [] (append_nil _).symm prefixId
  · rw [hcount] at hne
    rw [hstore]
    split_ifs at hne ⊢ with heq
    · rfl
    · exact h.promoting prefixId hne

theorem PromotedAtMostOnce.exec (hinv : run.Inv) (h : run.PromotedAtMostOnce)
    {event : FidelityEvent P} (htimely : run.Timely event) : (run.exec event).PromotedAtMostOnce := by
  cases event with
  | request req =>
    rw [FidelityRun.exec]
    split <;> exact ⟨h.once, h.promoting⟩
  | step callId =>
    rw [FidelityRun.exec]
    split
    · exact h
    · rename_i call phase hcall
      cases stepped_stepCall run callId call phase with
      | quiet store writes hphase =>
        exact ⟨fun pre rest heq => h.once pre rest (writes ▸ heq),
          fun prefixId hne => store ▸ h.promoting prefixId (writes ▸ hne)⟩
      | wrote next hphase store writes =>
        subst hphase
        obtain ⟨current, hcurrent⟩ := (hinv _ (mem_of_getElem? hcall)).target next rfl
        refine h.wrote (target_ne_promoting hcurrent) store writes fun hpromoting => ?_
        rcases htimely call next hcall with hsame | hdecided
        · exact absurd (hsame.symm.trans hpromoting) (target_ne_promoting hcurrent)
        · rw [hpromoting] at hdecided
          exact target_of_promoting hdecided
      | promoted hphase ready store writes => exact h.promote ready store writes

omit [DecidableEq P] in
theorem inv_start (minAccessCount : ℤ) : (start minAccessCount : FidelityRun P).Inv :=
  fun _ hc => absurd hc not_mem_nil

theorem promotedAtMostOnce_start (minAccessCount : ℤ) :
    (start minAccessCount : FidelityRun P).PromotedAtMostOnce where
  once writes rest heq prefixId := by
    obtain ⟨rfl, _⟩ := append_eq_nil_iff.mp heq.symm
    exact Nat.zero_le 1
  promoting _ hne := absurd rfl hne

theorem neverRegresses_iff_timely (minAccessCount : ℤ) (events : List (FidelityEvent P)) :
    (final exec (start minAccessCount) events).NeverRegresses ↔
      Along exec Timely (start minAccessCount) events := by
  have hsafe : (final exec (start minAccessCount) events).AllSafe ↔
      (start minAccessCount : FidelityRun P).AllSafe ∧
        Along exec Timely (start minAccessCount) events :=
    final_iff_along (fun _ event h => Inv.exec h event) (fun _ event h => allSafe_exec_iff h event)
      (inv_start minAccessCount)
  constructor
  · exact fun h => (hsafe.mp h.safe).2
  · intro h
    refine ⟨hsafe.mpr ⟨fun _ hw => absurd hw not_mem_nil, h⟩, ?_⟩
    have hrun := invariant_final (I := fun run : FidelityRun P => run.Inv ∧ run.PromotedAtMostOnce)
      (fun _ event hi ht => ⟨hi.1.exec event, hi.2.exec hi.1 ht⟩)
      ⟨inv_start minAccessCount, promotedAtMostOnce_start minAccessCount⟩ h
    exact hrun.2.once

def lateBaseStore : List (FidelityEvent ℕ) :=
  [.request ⟨.store, some .base, false, some 0⟩, .request ⟨.store, some .full, false, some 0⟩,
    .step 0, .step 1, .step 1, .step 1, .step 0]

theorem not_neverRegresses_lateBaseStore :
    ¬ (final exec (start 2) lateBaseStore).NeverRegresses := by
  intro h
  have hbase := (h.safe ⟨⟨.store, .base, 0⟩, .fullReady, .baseReady⟩ (by decide)).base rfl (by decide)
  exact hbase.2.1 rfl

end FidelityRun

end LMCache
