import LMCache.Foundations.Execution
import LMCache.Foundations.Lists
import Mathlib.Logic.Function.Iterate

namespace LMCache

open Function List

inductive SignalPoint where
  | idle
  | exchange
  | write
deriving DecidableEq

-- clear and recheck hold comp_mu_
inductive DrainPoint (A : Type) where
  | idle
  | read
  | pop (completionsList : List A)
  | clear (completionsList : List A)
  | recheck (completionsList : List A)
  | rewrite (completionsList : List A)

-- pushed and returned record what the workers have pushed and what each drain has returned
structure CompletionQueue (A : Type) where
  completions : List A
  signaled : Bool
  efd : ℕ
  workers : ℕ → SignalPoint
  drain : DrainPoint A
  pushed : List A
  returned : List (List A)

inductive QueueEvent (A : Type) where
  | push (worker : ℕ) (completion : A)
  | signal (worker : ℕ)
  | drain

namespace DrainPoint

variable {A : Type}

def holdsLock : DrainPoint A → Bool
  | clear _ | recheck _ | rewrite _ => true
  | _ => false

def beforeClear : DrainPoint A → Bool
  | read | pop _ | clear _ => true
  | _ => false

def drained : DrainPoint A → Bool
  | pop _ | clear _ => true
  | _ => false

def taken : DrainPoint A → List A
  | idle | read => []
  | pop completionsList | clear completionsList | recheck completionsList
  | rewrite completionsList => completionsList

end DrainPoint

namespace CompletionQueue

variable {A : Type}

def start : CompletionQueue A := ⟨[], false, 0, fun _ => .idle, .idle, [], []⟩

variable (q : CompletionQueue A)

def setWorker (worker : ℕ) (point : SignalPoint) : CompletionQueue A :=
  { q with workers := update q.workers worker point }

def push (worker : ℕ) (completion : A) : CompletionQueue A :=
  if q.workers worker = .idle ∧ q.drain.holdsLock = false then
    { q with
      completions := q.completions ++ [completion]
      pushed := q.pushed ++ [completion] }.setWorker worker .exchange
  else q

def signal (worker : ℕ) : CompletionQueue A :=
  match q.workers worker with
  | .idle => q
  | .exchange =>
      { q with signaled := true }.setWorker worker (if q.signaled then .idle else .write)
  | .write => { q with efd := q.efd + 1 }.setWorker worker .idle

def finish (completionsList : List A) : CompletionQueue A :=
  { q with
    drain := .idle
    returned := q.returned ++ [completionsList] }

def drainStep : CompletionQueue A :=
  match q.drain with
  | .idle => { q with drain := .read }
  | .read =>
      if q.efd = 0 then { q with drain := .pop [] } else { q with efd := 0 }
  | .pop completionsList =>
      match q.completions with
      | [] => { q with drain := .clear completionsList }
      | completion :: completions =>
          { q with
            completions := completions
            drain := .pop (completionsList ++ [completion]) }
  | .clear completionsList =>
      { q with
        signaled := false
        drain := .recheck completionsList }
  | .recheck completionsList =>
      if q.completions.isEmpty then q.finish completionsList
      else if q.signaled then q.finish completionsList
      else
        { q with
          signaled := true
          drain := .rewrite completionsList }
  | .rewrite completionsList => { q with efd := q.efd + 1 }.finish completionsList

def exec (numWorkers : ℕ) (q : CompletionQueue A) : QueueEvent A → CompletionQueue A
  | .push worker completion => if worker < numWorkers then q.push worker completion else q
  | .signal worker => q.signal worker
  | .drain => q.drainStep

open Execution

variable {q : CompletionQueue A} {numWorkers : ℕ}

structure Wakes (q : CompletionQueue A) : Prop where
  signal : q.signaled = true →
    0 < q.efd ∨ (∃ worker, q.workers worker = .write) ∨ q.drain.beforeClear = true
  queue : q.completions ≠ [] →
    q.signaled = true ∨ (∃ worker, q.workers worker = .exchange) ∨ q.drain.beforeClear = true
  locked : q.drain.holdsLock = true → q.completions = []
  rewrites : ∀ completionsList, q.drain ≠ .rewrite completionsList
  once : q.pushed = q.returned.flatten ++ q.drain.taken ++ q.completions

theorem wakes_start : (start : CompletionQueue A).Wakes :=
  ⟨fun h => (nomatch h), fun h => absurd rfl h, fun _ => rfl, fun _ h => (nomatch h), rfl⟩

variable {worker : ℕ}

theorem exists_update_of_ne {workers : ℕ → SignalPoint} {point old : SignalPoint}
    (h : ∃ w, workers w = old) (hne : workers worker ≠ old) :
    ∃ w, update workers worker point w = old := by
  obtain ⟨w, hw⟩ := h
  refine ⟨w, ?_⟩
  rw [update_of_ne]
  · exact hw
  · rintro rfl
    exact hne hw

theorem wakes_push (h : q.Wakes) (worker : ℕ) (completion : A) : (q.push worker completion).Wakes := by
  rw [push]
  split_ifs with hfree
  · obtain ⟨hidle, hlock⟩ := hfree
    refine ⟨fun hsignaled => ?_, fun _ => .inr (.inl ⟨worker, update_self ..⟩), fun hlocked => ?_,
      h.rewrites, ?_⟩
    · rcases h.signal hsignaled with hefd | hwrite | hclear
      · exact .inl hefd
      · exact .inr (.inl (exists_update_of_ne hwrite (by simp [hidle])))
      · exact .inr (.inr hclear)
    · exact absurd (hlock.symm.trans hlocked) Bool.false_ne_true
    · change q.pushed ++ [completion] = _ ++ _ ++ (q.completions ++ [completion])
      rw [h.once, append_assoc]
      rfl
  · exact h

theorem wakes_signal (h : q.Wakes) (worker : ℕ) : (q.signal worker).Wakes := by
  rw [signal]
  cases hpoint : q.workers worker with
  | idle => exact h
  | exchange =>
    refine ⟨fun _ => ?_, fun _ => .inl rfl, h.locked, h.rewrites, h.once⟩
    by_cases hsignaled : q.signaled = true
    · rcases h.signal hsignaled with hefd | hwrite | hclear
      · exact .inl hefd
      · exact .inr (.inl (exists_update_of_ne hwrite (by simp [hpoint])))
      · exact .inr (.inr hclear)
    · refine .inr (.inl ⟨worker, ?_⟩)
      rw [if_neg hsignaled]
      exact update_self ..
  | write =>
    refine ⟨fun _ => .inl (Nat.succ_pos _), fun hqueue => ?_, h.locked, h.rewrites, h.once⟩
    rcases h.queue hqueue with hsignaled | hexchange | hclear
    · exact .inl hsignaled
    · exact .inr (.inl (exists_update_of_ne hexchange (by simp [hpoint])))
    · exact .inr (.inr hclear)

theorem wakes_drainStep (h : q.Wakes) : q.drainStep.Wakes := by
  have honce := h.once
  rw [drainStep]
  cases hdrain : q.drain with
  | idle =>
    rw [hdrain] at honce
    exact ⟨fun _ => .inr (.inr rfl), fun _ => .inr (.inr rfl), fun hlock => (nomatch hlock),
      fun _ heq => (nomatch heq), honce⟩
  | read =>
    rw [hdrain] at honce
    dsimp only
    split_ifs
    all_goals exact ⟨fun _ => .inr (.inr rfl), fun _ => .inr (.inr rfl), fun hlock => (nomatch hlock),
      fun _ heq => (nomatch heq), honce⟩
  | pop completionsList =>
    rw [hdrain] at honce
    dsimp only
    cases hqueue : q.completions with
    | nil =>
      rw [hqueue] at honce
      exact ⟨fun _ => .inr (.inr rfl), fun _ => .inr (.inr rfl), fun _ => rfl,
        fun _ heq => (nomatch heq), honce⟩
    | cons completion completions =>
      refine ⟨fun _ => .inr (.inr rfl), fun _ => .inr (.inr rfl), fun hlock => (nomatch hlock),
        fun _ heq => (nomatch heq), ?_⟩
      rw [hqueue] at honce
      change q.pushed = _ ++ (completionsList ++ [completion]) ++ completions
      rw [honce, ← append_assoc, append_assoc _ [completion]]
      rfl
  | clear completionsList =>
    rw [hdrain] at honce
    have hempty : q.completions = [] := h.locked (by rw [hdrain]; rfl)
    exact ⟨fun hsignaled => (nomatch hsignaled), fun hqueue => absurd hempty hqueue, fun _ => hempty,
      fun _ heq => (nomatch heq), honce⟩
  | recheck completionsList =>
    rw [hdrain] at honce
    have hempty : q.completions = [] := h.locked (by rw [hdrain]; rfl)
    rw [hempty]
    refine ⟨fun hsignaled => ?_, fun hqueue => absurd hempty hqueue, fun hlock => (nomatch hlock),
      fun _ heq => (nomatch heq), ?_⟩
    · rcases h.signal hsignaled with hefd | hwrite | hclear
      · exact .inl hefd
      · exact .inr (.inl hwrite)
      · rw [hdrain] at hclear
        cases hclear
    · change q.pushed = (q.returned ++ [completionsList]).flatten ++ [] ++ q.completions
      rw [honce, flatten_append, flatten_singleton, append_nil]
      rfl
  | rewrite completionsList => exact absurd hdrain (h.rewrites completionsList)

theorem wakes_exec (h : q.Wakes) (event : QueueEvent A) : (q.exec numWorkers event).Wakes := by
  cases event with
  | push worker completion =>
    change (if worker < numWorkers then q.push worker completion else q).Wakes
    split_ifs
    · exact wakes_push h worker completion
    · exact h
  | signal worker => exact wakes_signal h worker
  | drain => exact wakes_drainStep h

theorem wakes_final (numWorkers : ℕ) (events : List (QueueEvent A)) : (final (exec numWorkers) start events).Wakes :=
  invariant_final (Q := fun _ _ => True) (I := Wakes) (fun _ event h _ => wakes_exec h event) wakes_start
    (along_of_forall (fun _ _ => trivial) _ _)

theorem pop_all (completions : List A) (q : CompletionQueue A) (completionsList : List A)
    (hqueue : q.completions = completions) (hdrain : q.drain = .pop completionsList) :
    ((drainStep^[completions.length + 3]) q).drain = .idle ∧
      ((drainStep^[completions.length + 3]) q).returned =
        q.returned ++ [completionsList ++ completions] := by
  induction completions generalizing q completionsList with
  | nil =>
    rw [append_nil]
    have hstep : drainStep q = { q with drain := .clear completionsList } := by
      rw [drainStep, hdrain]
      dsimp only
      rw [hqueue]
    have hrun : (drainStep^[3]) q = { q with signaled := false }.finish completionsList := by
      change drainStep (drainStep (drainStep q)) = _
      rw [hstep]
      change (if q.completions.isEmpty = true then _ else _ : CompletionQueue A) = _
      rw [hqueue]
      rfl
    rw [length_nil, Nat.zero_add, hrun]
    exact ⟨rfl, rfl⟩
  | cons completion completions ih =>
    have hstep : drainStep q =
        { q with
          completions := completions
          drain := .pop (completionsList ++ [completion]) } := by
      rw [drainStep, hdrain]
      dsimp only
      rw [hqueue]
    have hrest := ih (drainStep q) (completionsList ++ [completion]) (by rw [hstep]) (by rw [hstep])
    rw [append_assoc, singleton_append] at hrest
    rw [hstep] at hrest
    rw [length_cons, Nat.add_right_comm, iterate_succ_apply, hstep]
    exact hrest

theorem drain_returns (q : CompletionQueue A) (hdrain : q.drain = .idle) :
    ∃ n, ((drainStep^[n]) q).drain = .idle ∧
      ((drainStep^[n]) q).returned = q.returned ++ [q.completions] := by
  have hread : drainStep { q with drain := .read } =
      if q.efd = 0 then { q with drain := .pop [] } else { q with efd := 0, drain := .read } := rfl
  have hstart : drainStep q = { q with drain := .read } := by
    rw [drainStep, hdrain]
  by_cases hefd : q.efd = 0
  · have hpop : (drainStep^[2]) q = { q with drain := .pop [] } := by
      change drainStep (drainStep q) = _
      rw [hstart, hread, if_pos hefd]
    refine ⟨q.completions.length + 3 + 2, ?_⟩
    rw [iterate_add_apply, hpop]
    exact pop_all q.completions { q with drain := .pop [] } [] rfl rfl
  · have hpop : (drainStep^[3]) q = { q with efd := 0, drain := .pop [] } := by
      change drainStep (drainStep (drainStep q)) = _
      rw [hstart, hread, if_neg hefd]
      rfl
    refine ⟨q.completions.length + 3 + 3, ?_⟩
    rw [iterate_add_apply, hpop]
    exact pop_all q.completions { q with efd := 0, drain := .pop [] } [] rfl rfl

structure NoLostWakeUp (q : CompletionQueue A) : Prop where
  readable : q.completions ≠ [] → (∀ worker, q.workers worker = .idle) → q.drain = .idle → 0 < q.efd
  once : q.pushed = q.returned.flatten ++ q.drain.taken ++ q.completions
  settled : (∀ worker, q.workers worker = .idle) → q.drain = .idle → q.efd = 0 →
    q.pushed = q.returned.flatten
  drains : q.drain = .idle →
    ∃ n, ((drainStep^[n]) q).drain = .idle ∧
      ((drainStep^[n]) q).returned = q.returned ++ [q.completions]

theorem Wakes.readable (h : q.Wakes) (hqueue : q.completions ≠ [])
    (hworkers : ∀ worker, q.workers worker = .idle) (hdrain : q.drain = .idle) : 0 < q.efd := by
  have hidle : ∀ point, point ≠ SignalPoint.idle → ¬ ∃ worker, q.workers worker = point := by
    rintro point hne ⟨worker, hpoint⟩
    exact hne (hpoint.symm.trans (hworkers worker))
  have hbefore : q.drain.beforeClear ≠ true := by
    rw [hdrain]
    exact Bool.false_ne_true
  have hsignaled : q.signaled = true := by
    rcases h.queue hqueue with hsignaled | hexchange | hclear
    · exact hsignaled
    · exact absurd hexchange (hidle _ (by simp))
    · exact absurd hclear hbefore
  rcases h.signal hsignaled with hefd | hwrite | hclear
  · exact hefd
  · exact absurd hwrite (hidle _ (by simp))
  · exact absurd hclear hbefore

theorem noLostWakeUp (numWorkers : ℕ) (events : List (QueueEvent A)) :
    NoLostWakeUp (final (exec numWorkers) start events) := by
  have h := wakes_final numWorkers events
  refine ⟨h.readable, h.once, fun hworkers hdrain hefd => ?_, drain_returns _⟩
  have hempty : (final (exec numWorkers) start events).completions = [] := by
    by_contra hqueue
    have hreadable := h.readable hqueue hworkers hdrain
    omega
  have honce := h.once
  rw [hempty, hdrain] at honce
  simpa [DrainPoint.taken] using honce

theorem workers_signal_signal (q : CompletionQueue A) (worker : ℕ) :
    ((q.signal worker).signal worker).workers worker = .idle := by
  cases hpoint : q.workers worker <;> cases hsignaled : q.signaled <;>
    simp [signal, hpoint, hsignaled, setWorker]

example : (final (exec 1) start [.push 0 'a', .signal 0, .signal 0, .drain, .drain, .drain, .drain,
    .drain, .drain, .drain]).returned = [['a']] := by decide

def writers (numWorkers : ℕ) (q : CompletionQueue A) : ℕ :=
  (range numWorkers).countP fun worker => q.workers worker == .write

structure Bounded (numWorkers : ℕ) (q : CompletionQueue A) : Prop where
  outside : ∀ worker, numWorkers ≤ worker → q.workers worker = .idle
  bound : q.efd + q.writers numWorkers + (!q.signaled).toNat + q.drain.drained.toNat ≤ numWorkers + 2

theorem writers_le (numWorkers : ℕ) (q : CompletionQueue A) : q.writers numWorkers ≤ numWorkers := by
  have hle := countP_le_length (p := fun worker => q.workers worker == .write)
    (l := range numWorkers)
  rwa [length_range] at hle

theorem writers_update (q q' : CompletionQueue A) {point : SignalPoint}
    (hworkers : q'.workers = update q.workers worker point) (hlt : worker < numWorkers) :
    q'.writers numWorkers + (q.workers worker == .write).toNat =
      q.writers numWorkers + (point == .write).toNat := by
  rw [writers, writers, hworkers]
  exact countP_range_update q.workers (· == .write) hlt point

theorem outside_update (h : ∀ worker, numWorkers ≤ worker → q.workers worker = .idle)
    (hlt : worker < numWorkers) (point : SignalPoint) (w : ℕ) (hle : numWorkers ≤ w) :
    update q.workers worker point w = .idle := by
  rw [update_of_ne (by omega)]
  exact h w hle

theorem bounded_push (h : q.Bounded numWorkers) (hlt : worker < numWorkers) (completion : A) :
    (q.push worker completion).Bounded numWorkers := by
  rw [push]
  split_ifs with hfree
  · have hcount := writers_update q ({ q with
      completions := q.completions ++ [completion]
      pushed := q.pushed ++ [completion] }.setWorker worker .exchange) rfl hlt
    rw [hfree.1] at hcount
    refine ⟨outside_update h.outside hlt _, ?_⟩
    have hbound := h.bound
    change q.efd + writers numWorkers _ + (!q.signaled).toNat + q.drain.drained.toNat ≤ _
    change _ + 0 = _ + 0 at hcount
    omega
  · exact h

theorem bounded_signal (h : q.Bounded numWorkers) (worker : ℕ) :
    (q.signal worker).Bounded numWorkers := by
  have hbound := h.bound
  rw [signal]
  cases hpoint : q.workers worker with
  | idle => exact h
  | exchange =>
    have hlt : worker < numWorkers := by
      by_contra hle
      rw [h.outside worker (Nat.not_lt.mp hle)] at hpoint
      cases hpoint
    have hcount := writers_update q ({ q with signaled := true }.setWorker worker
      (if q.signaled then .idle else .write)) rfl hlt
    rw [hpoint] at hcount
    refine ⟨outside_update h.outside hlt _, ?_⟩
    change q.efd + writers numWorkers _ + 0 + q.drain.drained.toNat ≤ _
    cases hsignaled : q.signaled <;> rw [hsignaled] at hcount hbound
    all_goals simp only [Bool.false_eq_true, if_true, if_false] at hcount ⊢
    · change _ + 0 = _ + 1 at hcount
      change _ + 1 + _ ≤ _ at hbound
      omega
    · change _ + 0 = _ + 0 at hcount
      change _ + 0 + _ ≤ _ at hbound
      omega
  | write =>
    have hlt : worker < numWorkers := by
      by_contra hle
      rw [h.outside worker (Nat.not_lt.mp hle)] at hpoint
      cases hpoint
    have hcount := writers_update q ({ q with efd := q.efd + 1 }.setWorker worker .idle)
      rfl hlt
    rw [hpoint] at hcount
    refine ⟨outside_update h.outside hlt _, ?_⟩
    change q.efd + 1 + writers numWorkers _ + (!q.signaled).toNat + q.drain.drained.toNat ≤ _
    change _ + 1 = _ + 0 at hcount
    dsimp only at hcount ⊢
    omega

theorem bounded_drainStep (hwakes : q.Wakes) (h : q.Bounded numWorkers) :
    q.drainStep.Bounded numWorkers := by
  have hbound := h.bound
  have hwriters := q.writers_le numWorkers
  have hflag : (!q.signaled).toNat ≤ 1 := Bool.toNat_le _
  rw [drainStep]
  cases hdrain : q.drain with
  | idle =>
    rw [hdrain] at hbound
    exact ⟨h.outside, hbound⟩
  | read =>
    rw [hdrain] at hbound
    dsimp only
    split_ifs with hefd
    · refine ⟨h.outside, ?_⟩
      change q.efd + q.writers numWorkers + (!q.signaled).toNat + 1 ≤ _
      omega
    · refine ⟨h.outside, ?_⟩
      change 0 + q.writers numWorkers + (!q.signaled).toNat + 0 ≤ _
      omega
  | pop completionsList =>
    rw [hdrain] at hbound
    dsimp only
    cases q.completions with
    | nil => exact ⟨h.outside, hbound⟩
    | cons completion completions => exact ⟨h.outside, hbound⟩
  | clear completionsList =>
    rw [hdrain] at hbound
    refine ⟨h.outside, ?_⟩
    change q.efd + q.writers numWorkers + 1 + 0 ≤ _
    change q.efd + q.writers numWorkers + (!q.signaled).toNat + 1 ≤ _ at hbound
    omega
  | recheck completionsList =>
    rw [hdrain] at hbound
    have hempty : q.completions = [] := hwakes.locked (by rw [hdrain]; rfl)
    rw [hempty]
    exact ⟨h.outside, hbound⟩
  | rewrite completionsList => exact absurd hdrain (hwakes.rewrites completionsList)

theorem bounded_exec (hwakes : q.Wakes) (h : q.Bounded numWorkers) (event : QueueEvent A) :
    (q.exec numWorkers event).Bounded numWorkers := by
  cases event with
  | push worker completion =>
    change (if worker < numWorkers then q.push worker completion else q).Bounded numWorkers
    split_ifs with hlt
    · exact bounded_push h hlt completion
    · exact h
  | signal worker => exact bounded_signal h worker
  | drain => exact bounded_drainStep hwakes h

theorem efd_le (numWorkers : ℕ) (events : List (QueueEvent A)) :
    (final (exec numWorkers) start events).efd ≤ numWorkers + 2 := by
  have hstart : (start : CompletionQueue A).Bounded numWorkers := by
    have hwriters := (start : CompletionQueue A).writers_le numWorkers
    refine ⟨fun _ _ => rfl, ?_⟩
    change 0 + writers numWorkers _ + 1 + 0 ≤ _
    omega
  have hfinal : (final (exec numWorkers) start events).Wakes ∧
      (final (exec numWorkers) start events).Bounded numWorkers :=
    invariant_final (Q := fun _ _ => True)
      (I := fun q : CompletionQueue A => q.Wakes ∧ q.Bounded numWorkers)
      (fun _ event h _ => ⟨wakes_exec h.1 event, bounded_exec h.1 h.2 event⟩)
      ⟨wakes_start, hstart⟩ (along_of_forall (fun _ _ => trivial) _ events)
  have hbound := hfinal.2.bound
  omega

end CompletionQueue

end LMCache
