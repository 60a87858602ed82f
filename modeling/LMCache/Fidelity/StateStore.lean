import LMCache.Foundations.Dict
import Mathlib.Data.Int.Notation

namespace LMCache

inductive FidelityLevel where
  | full
  | base
deriving DecidableEq

inductive FidelityState where
  | miss
  | baseReady
  | promoting
  | fullReady
  | fullEvicted
deriving DecidableEq

structure FidelityStateRecord where
  state : FidelityState
  reason : String

structure FidelityStateStore (P : Type) where
  states : Dict P FidelityStateRecord

structure HotnessTracker (P : Type) where
  minAccessCount : ℕ
  accessCounts : Dict P ℕ

variable {P : Type} [DecidableEq P]

namespace FidelityStateStore

def empty : FidelityStateStore P := ⟨Dict.empty⟩

def get (store : FidelityStateStore P) (prefixId : P) : FidelityState :=
  match store.states.get? prefixId with
  | none => .miss
  | some record => record.state

def set (store : FidelityStateStore P) (prefixId : P) (state : FidelityState) (reason : String) :
    FidelityStateStore P × FidelityState :=
  (⟨store.states.set prefixId ⟨state, reason⟩⟩, store.get prefixId)

variable (store : FidelityStateStore P)

def transition (prefixId : P) (fromState toState : FidelityState) (reason : String) :
    FidelityStateStore P × Bool :=
  if store.get prefixId = fromState then
    (⟨store.states.set prefixId ⟨toState, reason⟩⟩, true)
  else (store, false)

theorem get_set (prefixId prefixId' : P) (state : FidelityState) (reason : String) :
    (store.set prefixId state reason).1.get prefixId' =
      if prefixId = prefixId' then state else store.get prefixId' := by
  rw [set, get, get, Dict.get?_set]
  split_ifs <;> rfl

theorem get_transition (prefixId prefixId' : P) (fromState toState : FidelityState)
    (reason : String) :
    (store.transition prefixId fromState toState reason).1.get prefixId' =
      if store.get prefixId = fromState ∧ prefixId = prefixId' then toState
      else store.get prefixId' := by
  rw [transition]
  split_ifs with hfrom hboth hboth
  · exact (get_set store prefixId prefixId' toState reason).trans (if_pos hboth.2)
  · exact (get_set store prefixId prefixId' toState reason).trans
      (if_neg fun heq => hboth ⟨hfrom, heq⟩)
  · exact absurd hboth.1 hfrom
  · rfl

theorem transition_eq (prefixId : P) (fromState toState : FidelityState) (reason : String) :
    (store.transition prefixId fromState toState reason).2 =
      decide (store.get prefixId = fromState) := by
  rw [transition]
  split_ifs with h <;> simp [h]

end FidelityStateStore

namespace HotnessTracker

def create (minAccessCount : ℤ) : HotnessTracker P := ⟨max 1 minAccessCount.toNat, Dict.empty⟩

def recordAccess (tracker : HotnessTracker P) (prefixId : P) : HotnessTracker P × ℕ × Bool :=
  let count := (tracker.accessCounts.get? prefixId).getD 0 + 1
  ({ tracker with accessCounts := tracker.accessCounts.set prefixId count }, count,
    decide (tracker.minAccessCount ≤ count))

def reset (tracker : HotnessTracker P) (prefixId : P) : HotnessTracker P :=
  { tracker with accessCounts := tracker.accessCounts.erase prefixId }

end HotnessTracker

end LMCache

namespace LMCache

inductive UpdateKind where
  | store
  | retrieve (retrievedTokens : ℤ) (promotionEnabled : Bool)
deriving DecidableEq

inductive UpdatePhase where
  | reading
  | resetting
  | writing (next : FidelityState)
  | forgetting
  | recording (current : FidelityState)
  | promoting
  | checking
  | done
deriving DecidableEq

structure UpdateRequest (P : Type) where
  kind : UpdateKind
  fidelityLevel : Option FidelityLevel
  skipSave : Bool
  prefixId : Option P

structure UpdateCall (P : Type) where
  kind : UpdateKind
  fidelityLevel : FidelityLevel
  prefixId : P
deriving DecidableEq

structure StateWrite (P : Type) where
  call : UpdateCall P
  old : FidelityState
  new : FidelityState
deriving DecidableEq

structure FidelityRun (P : Type) where
  stateStore : FidelityStateStore P
  hotnessTracker : HotnessTracker P
  calls : List (UpdateCall P × UpdatePhase)
  writes : List (StateWrite P)

inductive FidelityEvent (P : Type) where
  | request (req : UpdateRequest P)
  | step (callId : ℕ)

variable {P : Type}

namespace UpdatePhase

def target : UpdatePhase → Option FidelityState
  | .resetting => some .fullReady
  | .writing next => some next
  | _ => none

end UpdatePhase

namespace UpdateCall

variable (call : UpdateCall P)

def afterGet (current : FidelityState) : UpdatePhase :=
  match call.kind, call.fidelityLevel with
  | .store, .base =>
      if current = .promoting ∨ current = .fullReady then .done else .writing .baseReady
  | .store, .full => .resetting
  | .retrieve retrievedTokens _, level =>
      if retrievedTokens ≤ 0 then
        if level = .full ∧ current = .fullReady then .writing .fullEvicted else .done
      else
        match level with
        | .full => .writing .fullReady
        | .base => if current = .miss then .writing .baseReady else .recording current

def reason (next : FidelityState) : String :=
  match call.kind, call.fidelityLevel, next with
  | .store, .base, _ => "store_base_complete"
  | .store, .full, _ => "store_full_complete"
  | .retrieve _ _, _, .fullEvicted => "full_retrieve_miss_after_full_ready"
  | .retrieve _ _, .full, _ => "full_retrieve_hit"
  | .retrieve _ _, .base, _ => "base_retrieve_hit_recovered_state"

def afterSet (next : FidelityState) : UpdatePhase :=
  match call.kind, next with
  | .retrieve _ _, .fullReady => .forgetting
  | .retrieve _ _, .baseReady => .recording .baseReady
  | _, _ => .done

def promotionEnabled (call : UpdateCall P) : Bool :=
  match call.kind with
  | .store => false
  | .retrieve _ promotionEnabled => promotionEnabled

def CompletesFull : Prop :=
  call.fidelityLevel = .full ∧
    (call.kind = .store ∨ ∃ retrievedTokens promotionEnabled,
      call.kind = .retrieve retrievedTokens promotionEnabled ∧ 0 < retrievedTokens)

def IsBaseRetrieve : Prop :=
  call.fidelityLevel = .base ∧ call.kind ≠ .store

structure Sound (call : UpdateCall P) (phase : UpdatePhase) : Prop where
  target : ∀ next, phase.target = some next →
    ∃ current, (call.afterGet current).target = some next
  base : phase = .promoting ∨ (∃ current, phase = .recording current) → call.IsBaseRetrieve

variable {call : UpdateCall P} {phase : UpdatePhase} {current next : FidelityState}

theorem sound_plain (htarget : phase.target = none) (hpromoting : phase ≠ .promoting)
    (hrecording : ∀ current, phase ≠ .recording current) : Sound call phase where
  target next h := absurd (htarget.symm.trans h) (by simp)
  base h := h.elim (fun h => absurd h hpromoting) fun ⟨current, h⟩ => absurd h (hrecording current)

theorem sound_afterGet (call : UpdateCall P) (current : FidelityState) :
    Sound call (call.afterGet current) := by
  refine ⟨fun next h => ⟨current, h⟩, ?_⟩
  obtain ⟨kind, level, prefixId⟩ := call
  cases kind with
  | store => cases level <;> cases current <;> simp [afterGet]
  | retrieve retrievedTokens promotionEnabled =>
    cases level with
    | full =>
      simp only [afterGet]
      split_ifs <;> simp
    | base =>
      refine fun _ => ⟨rfl, ?_⟩
      simp

theorem afterGet_baseReady (h : (call.afterGet current).target = some .baseReady) :
    call.fidelityLevel = .base := by
  obtain ⟨kind, level, prefixId⟩ := call
  cases level with
  | base => rfl
  | full =>
    cases kind with
    | store => exact absurd h (by simp [afterGet, UpdatePhase.target])
    | retrieve retrievedTokens promotionEnabled =>
      rw [afterGet] at h
      dsimp only at h
      split_ifs at h <;> simp [UpdatePhase.target] at h

theorem sound_afterSet (h : (call.afterGet current).target = some next) :
    Sound call (call.afterSet next) := by
  obtain ⟨kind, level, prefixId⟩ := call
  cases kind with
  | store => exact sound_plain rfl (by simp [afterSet]) (by simp [afterSet])
  | retrieve retrievedTokens promotionEnabled =>
    cases next with
    | baseReady =>
      refine ⟨fun _ h => absurd h (by simp [afterSet, UpdatePhase.target]), fun _ => ?_⟩
      exact ⟨afterGet_baseReady h, by simp⟩
    | miss | promoting | fullReady | fullEvicted =>
      exact sound_plain rfl (by simp [afterSet]) (by simp [afterSet])

theorem target_ne_promoting (h : (call.afterGet current).target = some next) :
    next ≠ .promoting := by
  rintro rfl
  obtain ⟨kind, level, prefixId⟩ := call
  cases kind with
  | store =>
    cases level with
    | full => simp [afterGet, UpdatePhase.target] at h
    | base =>
      simp only [afterGet] at h
      split_ifs at h <;> simp [UpdatePhase.target] at h
  | retrieve retrievedTokens promotionEnabled =>
    cases level <;>
    · simp only [afterGet] at h
      split_ifs at h <;> simp [UpdatePhase.target] at h

theorem target_of_promoting (h : (call.afterGet .promoting).target = some next) :
    next = .fullReady := by
  obtain ⟨kind, level, prefixId⟩ := call
  cases kind with
  | store =>
    cases level with
    | full => exact (Option.some.inj h).symm
    | base => exact absurd h (by simp [afterGet, UpdatePhase.target])
  | retrieve retrievedTokens promotionEnabled =>
    cases level with
    | full =>
      simp only [afterGet] at h
      split_ifs at h with hmiss hready
      · exact absurd hready.2 (by simp)
      · exact absurd h (by simp [UpdatePhase.target])
      · exact (Option.some.inj h).symm
    | base =>
      simp only [afterGet] at h
      split_ifs at h <;> simp_all [UpdatePhase.target]

end UpdateCall

namespace UpdateRequest

def call? (req : UpdateRequest P) : Option (UpdateCall P) :=
  match req.fidelityLevel, req.prefixId with
  | some level, some prefixId => if req.skipSave then none else some ⟨req.kind, level, prefixId⟩
  | _, _ => none

end UpdateRequest

variable [DecidableEq P]

namespace FidelityRun

def start (minAccessCount : ℤ) : FidelityRun P := ⟨.empty, .create minAccessCount, [], []⟩

variable (run : FidelityRun P)

def setPhase (callId : ℕ) (call : UpdateCall P) (phase : UpdatePhase) : FidelityRun P :=
  { run with calls := run.calls.set callId (call, phase) }

def reset (run : FidelityRun P) (prefixId : P) : FidelityRun P :=
  { run with hotnessTracker := run.hotnessTracker.reset prefixId }

def wrote (stateStore : FidelityStateStore P) (write : StateWrite P) : FidelityRun P :=
  { run with stateStore := stateStore, writes := run.writes ++ [write] }

def write (call : UpdateCall P) (next : FidelityState) : FidelityRun P :=
  match run.stateStore.set call.prefixId next (call.reason next) with
  | (stateStore, previous) => run.wrote stateStore ⟨call, previous, next⟩

def promote (callId : ℕ) (call : UpdateCall P) : FidelityRun P :=
  match run.stateStore.transition call.prefixId .baseReady .promoting "hotness_threshold" with
  | (stateStore, true) =>
      (run.wrote stateStore ⟨call, .baseReady, .promoting⟩).setPhase callId call .done
  | (_, false) => run.setPhase callId call .checking

def record (callId : ℕ) (call : UpdateCall P) (current : FidelityState) : FidelityRun P :=
  let (hotnessTracker, _, hotEnough) := run.hotnessTracker.recordAccess call.prefixId
  FidelityRun.setPhase { run with hotnessTracker := hotnessTracker } callId call
    (if call.promotionEnabled && hotEnough && decide (current = .baseReady) then .promoting
      else .done)

def stepCall (callId : ℕ) (call : UpdateCall P) :
    UpdatePhase → FidelityRun P
  | .reading => run.setPhase callId call (call.afterGet (run.stateStore.get call.prefixId))
  | .resetting => (run.reset call.prefixId).setPhase callId call (.writing .fullReady)
  | .writing next => (run.write call next).setPhase callId call (call.afterSet next)
  | .forgetting => (run.reset call.prefixId).setPhase callId call .done
  | .recording current => run.record callId call current
  | .promoting => run.promote callId call
  | .checking => run.setPhase callId call .done
  | .done => run

def exec : FidelityEvent P → FidelityRun P
  | .request req =>
      match req.call? with
      | none => run
      | some call => { run with calls := run.calls ++ [(call, .reading)] }
  | .step callId =>
      match run.calls[callId]? with
      | none => run
      | some (call, phase) => run.stepCall callId call phase

end FidelityRun

end LMCache
