import LMCache.StorageBackend.JobExecutor
import Mathlib.Algebra.Ring.Int.Defs
import Mathlib.Data.List.Count

namespace LMCache

open Function List PQWorker PQItem Option Nat

inductive ExecutorKind where
  | eventLoop
  | threadPool
  deriving DecidableEq, Repr

-- closed has the number of the first sentinel, joining says that the shutdown waits for the queue, and
-- cancelled has the workers whose future is cancelled and whose task is not yet
structure ClosingExecutor where
  kind : ExecutorKind
  executor : AsyncPQExecutor
  unfinishedTasks : ℕ
  closed : Option ℕ
  joining : Bool
  cancelled : List ℕ

inductive ShutdownEvent where
  | work (event : PQEvent)
  | shutdown (wait : Bool)
  | joined
  | cancelWorker (worker : ℕ) (reaction : Option JobOutcome)
  deriving DecidableEq, Repr

def PQWorker.isRunning : PQWorker → Bool
  | .running _ => true
  | _ => false

namespace ClosingExecutor

def sentinelPriority : ℤ := 2 ^ 31 - 1

def start (kind : ExecutorKind) (maxWorkers : ℕ) : ClosingExecutor :=
  ⟨kind, .start maxWorkers, 0, none, false, []⟩

variable (s : ClosingExecutor)

def maxWorkers : ℕ := s.executor.workers.length

def IsSentinel (item : PQItem) : Prop :=
  ∃ first ∈ s.closed, first ≤ item.number ∧ item.number < first + s.maxWorkers

instance (s : ClosingExecutor) (item : PQItem) : Decidable (s.IsSentinel item) :=
  inferInstanceAs (Decidable (∃ first ∈ s.closed, _))

def submitJob (s : ClosingExecutor) (priority : ℤ) : ClosingExecutor :=
  { s with executor := s.executor.submitJob priority, unfinishedTasks := s.unfinishedTasks + 1 }

def get (s : ClosingExecutor) (worker : ℕ) : ClosingExecutor :=
  match s.executor.workers[worker]?, pop s.executor.queue with
  | some .waiting, some (item, rest) =>
      if s.IsSentinel item then
        { s with
          executor := { s.executor with
            queue := rest
            workers := s.executor.workers.set worker .stopped }
          unfinishedTasks := s.unfinishedTasks - 1 }
      else { s with executor := s.executor.get worker }
  | _, _ => s

def finish (s : ClosingExecutor) (worker : ℕ) (outcome : JobOutcome) : ClosingExecutor :=
  match s.executor.workers[worker]? with
  | some (.running _) =>
      { s with
        executor := s.executor.finish worker outcome
        unfinishedTasks := s.unfinishedTasks - 1 }
  | _ => s

def sentinels : List PQItem :=
  (range s.maxWorkers).map fun i => ⟨sentinelPriority, s.executor.counter + i⟩

def liveWorkers : List ℕ :=
  (range s.maxWorkers).filter fun worker => s.executor.workers[worker]? ≠ some .stopped

def shutdown (wait : Bool) : ClosingExecutor :=
  if s.closed.isSome then s
  else
    { s with
      executor := { s.executor with
        queue := s.executor.queue ++ s.sentinels
        counter := s.executor.counter + s.maxWorkers }
      unfinishedTasks := s.unfinishedTasks + s.maxWorkers
      closed := some s.executor.counter
      joining := wait
      cancelled := if s.kind = .eventLoop ∨ wait = false then s.liveWorkers else s.cancelled }

def joined : ClosingExecutor :=
  if s.joining ∧ s.unfinishedTasks = 0 then
    { s with
      joining := false
      cancelled := if s.kind = .threadPool then s.liveWorkers else s.cancelled }
  else s

def cancelTask (worker : ℕ) (reaction : Option JobOutcome) : ClosingExecutor :=
  match s.executor.workers[worker]? with
  | some .waiting =>
      { s with executor := { s.executor with
          workers := s.executor.workers.set worker .stopped } }
  | some (.running _) =>
      match s.kind with
      | .threadPool => s.finish worker .interrupted
      | .eventLoop =>
          match reaction with
          | some outcome => s.finish worker outcome
          | none => s
  | _ => s

def cancelWorker (worker : ℕ) (reaction : Option JobOutcome) : ClosingExecutor :=
  if worker ∈ s.cancelled then
    { s with cancelled := s.cancelled.erase worker }.cancelTask worker reaction
  else s

def exec : ShutdownEvent → ClosingExecutor
  | .work (.submitJob priority) => s.submitJob priority
  | .work (.cancelSubmitter number) => { s with executor := s.executor.cancelSubmitter number }
  | .work (.get worker) => s.get worker
  | .work (.finish worker outcome) => s.finish worker outcome
  | .shutdown wait => s.shutdown wait
  | .joined => s.joined
  | .cancelWorker worker reaction => s.cancelWorker worker reaction

def Lost : Prop :=
  ∃ accepted ∈ s.closed, (∀ worker ∈ s.executor.workers, worker = .stopped) ∧
    ∃ number < accepted, number ∈ s.executor.queue.map PQItem.number ∨
      number ∈ s.executor.started ∧ s.executor.done number = .pending

def Sustains : ShutdownEvent → Prop
  | .work (.submitJob priority) => s.closed = none → priority ≤ sentinelPriority
  | .work (.finish worker outcome) => ∀ number,
      s.executor.workers[worker]? = some (.running number) →
        s.executor.done number = .pending ∧ outcome ≠ .interrupted ∨
        s.executor.done number ≠ .pending ∧
          ∃ other, other ≠ worker ∧ ∃ live, s.executor.workers[other]? = some live ∧ live ≠ .stopped
  | _ => True

def Settled (accepted : ℕ) (executor : AsyncPQExecutor) : Prop :=
  ∀ number < accepted, number ∉ executor.queue.map PQItem.number ∧ executor.done number ≠ .pending

variable {s : ClosingExecutor}

theorem get_cases (worker : ℕ) :
    s.get worker = s ∨
    ∃ item rest, s.executor.workers[worker]? = some .waiting ∧
      pop s.executor.queue = some (item, rest) ∧
      (s.IsSentinel item ∧ s.get worker = { s with
          executor := { s.executor with
            queue := rest
            workers := s.executor.workers.set worker .stopped }
          unfinishedTasks := s.unfinishedTasks - 1 } ∨
        ¬ s.IsSentinel item ∧ s.get worker = { s with
          executor := { s.executor with
            queue := rest
            workers := s.executor.workers.set worker (.running item.number)
            started := s.executor.started ++ [item.number] } }) := by
  rw [get]
  split
  · rename_i item rest hwaiting hpop
    refine .inr ⟨item, rest, hwaiting, hpop, ?_⟩
    split_ifs with hsentinel
    · exact .inl ⟨hsentinel, rfl⟩
    · refine .inr ⟨hsentinel, ?_⟩
      rw [AsyncPQExecutor.get, hwaiting, hpop]
  · exact .inl rfl

theorem finish_cases (worker : ℕ) (outcome : JobOutcome) :
    s.finish worker outcome = s ∨
    ∃ number, s.executor.workers[worker]? = some (.running number) ∧
      ((∃ done, (s.executor.done number).settle outcome = some done ∧
          s.finish worker outcome = { s with
            executor := { s.executor with
              done := update s.executor.done number done
              workers := s.executor.workers.set worker .waiting }
            unfinishedTasks := s.unfinishedTasks - 1 }) ∨
        (s.executor.done number).settle outcome = none ∧
          s.finish worker outcome = { s with
            executor := { s.executor with workers := s.executor.workers.set worker .stopped }
            unfinishedTasks := s.unfinishedTasks - 1 }) := by
  rw [finish]
  split
  · rename_i number hrunning
    refine .inr ⟨number, hrunning, ?_⟩
    rw [AsyncPQExecutor.finish, hrunning]
    cases hsettle : (s.executor.done number).settle outcome with
    | some done => exact .inl ⟨done, rfl, by dsimp only; rw [hsettle]⟩
    | none => exact .inr ⟨rfl, by dsimp only; rw [hsettle]⟩
  · exact .inl rfl

def numbers (s : ClosingExecutor) : List ℕ := s.executor.queue.map number

def accepted (s : ClosingExecutor) : ℕ := s.closed.getD s.executor.counter

def Alive (s : ClosingExecutor) : Prop :=
  ∃ (worker : ℕ) (live : PQWorker), s.executor.workers[worker]? = some live ∧ live ≠ .stopped

structure Serving (s : ClosingExecutor) : Prop where
  taken : ∀ number < s.accepted, number ∈ s.numbers ∨ number ∈ s.executor.started
  answered : ∀ number ∈ s.executor.started,
    (∃ worker : ℕ, s.executor.workers[worker]? = some (.running number)) ∨
      s.executor.done number ≠ .pending
  served : s.Alive ∨ s.closed.isSome ∧ ∀ number < s.accepted, number ∉ s.numbers
  fresh : ∀ item ∈ s.executor.queue, item.number < s.executor.counter
  ordered : ∀ item ∈ s.executor.queue, (∀ first ∈ s.closed, item.number < first) →
    item.priority ≤ sentinelPriority
  sentinel : ∀ item ∈ s.executor.queue, s.IsSentinel item → item.priority = sentinelPriority
  numbered : ∀ first ∈ s.closed, first + s.maxWorkers ≤ s.executor.counter
  counted : s.unfinishedTasks = s.executor.queue.length + s.executor.workers.countP isRunning

def Over (s : ClosingExecutor) : Prop :=
  ∃ accepted ∈ s.closed, accepted ≤ s.executor.counter ∧ Settled accepted s.executor

variable {worker : ℕ} {workers : List PQWorker}

theorem countP_set {old : PQWorker} (new : PQWorker) (h : workers[worker]? = some old) :
    (workers.set worker new).countP isRunning + old.isRunning.toNat =
      workers.countP isRunning + new.isRunning.toNat := by
  induction workers generalizing worker with
  | nil => cases h
  | cons first workers ih =>
    cases worker with
    | zero =>
      obtain rfl := some.inj h
      rw [set_cons_zero, countP_cons, countP_cons]
      cases first <;> cases new <;> simp [isRunning]
    | succ worker =>
      rw [set_cons_succ, countP_cons, countP_cons]
      have hrest := ih h
      omega

theorem running_set {worker other number : ℕ} {old new : PQWorker}
    (hold : workers[worker]? = some old) (hne : old ≠ .running number)
    (h : workers[other]? = some (.running number)) :
    (workers.set worker new)[other]? = some (.running number) := by
  rw [getElem?_set_ne, h]
  rintro rfl
  exact hne (some.inj (hold.symm.trans h))

theorem Serving.not_lost (h : Serving s) : ¬ Lost s := by
  rintro ⟨accepted, haccepted, hstopped, number, hnumber, hlost⟩
  have haccepted' : s.accepted = accepted := by
    rw [ClosingExecutor.accepted, mem_def.mp haccepted, getD_some]
  have hstopped' : ∀ (worker : ℕ) (live : PQWorker), s.executor.workers[worker]? = some live →
      live = .stopped := fun worker live hlive => hstopped live (mem_of_getElem? hlive)
  rcases hlost with hqueued | ⟨hstarted, hpending⟩
  · rcases h.served with ⟨worker, live, hlive, hne⟩ | ⟨_, hnone⟩
    · exact hne (hstopped' worker live hlive)
    · exact hnone number (haccepted'.symm ▸ hnumber) hqueued
  · rcases h.answered number hstarted with ⟨worker, hrunning⟩ | hdone
    · exact PQWorker.noConfusion (hstopped' worker _ hrunning)
    · exact hdone hpending

theorem Over.not_lost (h : Over s) : ¬ Lost s := by
  rintro ⟨accepted, haccepted, _, number, hnumber, hlost⟩
  obtain ⟨accepted', haccepted', _, hsettled⟩ := h
  obtain rfl := mem_unique haccepted haccepted'
  rcases hlost with hqueued | ⟨_, hpending⟩
  · exact (hsettled number hnumber).1 hqueued
  · exact (hsettled number hnumber).2 hpending

theorem serving_start (kind : ExecutorKind) {maxWorkers : ℕ} (h : 0 < maxWorkers) :
    Serving (start kind maxWorkers) where
  taken number hnumber := absurd hnumber (not_lt_zero number)
  answered number hnumber := absurd hnumber not_mem_nil
  served := by
    refine .inl ⟨0, .waiting, ?_, PQWorker.noConfusion⟩
    simp [start, AsyncPQExecutor.start, h]
  fresh item hitem := absurd hitem not_mem_nil
  ordered item hitem := absurd hitem not_mem_nil
  sentinel item hitem := absurd hitem not_mem_nil
  numbered first hfirst := absurd hfirst (not_mem_none first)
  counted := by
    simp [start, AsyncPQExecutor.start, countP_replicate, isRunning]

variable {priority : ℤ} {number : ℕ}

theorem accepted_submitJob (h : number < (s.submitJob priority).accepted) :
    number < s.accepted ∨ s.closed = none ∧ number = s.executor.counter := by
  rw [accepted] at h ⊢
  cases hclosed : s.closed with
  | none =>
    have hlt : number < s.executor.counter + 1 := by
      simpa [submitJob, AsyncPQExecutor.submitJob, hclosed] using h
    rcases Nat.lt_succ_iff_lt_or_eq.mp hlt with hlt | heq
    · exact .inl hlt
    · exact .inr ⟨rfl, heq⟩
  | some first => exact .inl (by simpa [submitJob, hclosed] using h)

theorem numbers_submitJob (priority : ℤ) :
    (s.submitJob priority).numbers = s.numbers ++ [s.executor.counter] := map_append

variable {item : PQItem}

theorem mem_queue_submitJob (h : item ∈ (s.submitJob priority).executor.queue) :
    item ∈ s.executor.queue ∨ item = ⟨priority, s.executor.counter⟩ :=
  (mem_append.mp h).imp_right mem_singleton.mp

theorem Serving.accepted_le (h : Serving s) : s.accepted ≤ s.executor.counter := by
  rw [accepted]
  cases hclosed : s.closed with
  | none => exact le_rfl
  | some first => exact (le_add_right _ _).trans (h.numbered first hclosed)

theorem Serving.submitJob (h : Serving s)
    (hpriority : s.closed = none → priority ≤ sentinelPriority) :
    Serving (s.submitJob priority) where
  taken number hnumber := by
    rw [numbers_submitJob, mem_append]
    rcases accepted_submitJob hnumber with hold | ⟨_, rfl⟩
    · exact (h.taken number hold).imp_left .inl
    · exact .inl (.inr (mem_singleton_self _))
  answered := h.answered
  served := by
    rcases h.served with halive | ⟨hclosed, hnone⟩
    · exact .inl halive
    · refine .inr ⟨hclosed, fun number hnumber hmem => ?_⟩
      rcases accepted_submitJob hnumber with hold | ⟨hopen, _⟩
      · rw [numbers_submitJob, mem_append, mem_singleton] at hmem
        rcases hmem with hmem | rfl
        · exact hnone number hold hmem
        · exact absurd h.accepted_le (not_le.mpr hold)
      · rw [hopen] at hclosed
        cases hclosed
  fresh item hitem := by
    rcases mem_queue_submitJob hitem with hold | rfl
    · exact lt_succ_of_lt (h.fresh item hold)
    · exact lt_succ_self _
  ordered item hitem hbefore := by
    rcases mem_queue_submitJob hitem with hold | rfl
    · exact h.ordered item hold hbefore
    · cases hclosed : s.closed with
      | none => exact hpriority hclosed
      | some first =>
        have hlt := hbefore first hclosed
        have hle := h.numbered first hclosed
        exact absurd hle (Nat.not_le.mpr (Nat.lt_add_right _ hlt))
  sentinel item hitem hsentinel := by
    rcases mem_queue_submitJob hitem with hold | rfl
    · exact h.sentinel item hold hsentinel
    · obtain ⟨first, hfirst, _, hlt⟩ := hsentinel
      exact absurd (h.numbered first hfirst) (not_le.mpr hlt)
  numbered first hfirst := le_succ_of_le (h.numbered first hfirst)
  counted := by
    have hcounted := h.counted
    simp only [ClosingExecutor.submitJob, AsyncPQExecutor.submitJob, length_append,
      length_singleton]
    omega

theorem pending_cancelSubmitter {executor : AsyncPQExecutor} {number other : ℕ}
    (h : (executor.cancelSubmitter number).done other = .pending) :
    executor.done other = .pending := by
  rw [AsyncPQExecutor.cancelSubmitter] at h
  split_ifs at h with hcancels
  · change update executor.done number .cancelled other = .pending at h
    rcases eq_or_ne other number with rfl | hne
    · exact hcancels.2
    · rwa [update_of_ne hne] at h
  · exact h

theorem cancelSubmitter_frame (executor : AsyncPQExecutor) (number : ℕ) :
    (executor.cancelSubmitter number).queue = executor.queue ∧
      (executor.cancelSubmitter number).counter = executor.counter ∧
      (executor.cancelSubmitter number).workers = executor.workers ∧
      (executor.cancelSubmitter number).started = executor.started := by
  rw [AsyncPQExecutor.cancelSubmitter]
  split_ifs <;> exact ⟨rfl, rfl, rfl, rfl⟩

theorem Serving.cancelSubmitter (h : Serving s) (number : ℕ) :
    Serving { s with executor := s.executor.cancelSubmitter number } := by
  have hpending : ∀ {other : ℕ}, (s.executor.cancelSubmitter number).done other = .pending →
      s.executor.done other = .pending := pending_cancelSubmitter
  obtain ⟨hqueue, hcounter, hworkers, hstarted⟩ := cancelSubmitter_frame s.executor number
  generalize s.executor.cancelSubmitter number = executor at *
  obtain ⟨queue, counter, done, workers, started⟩ := executor
  subst hqueue hcounter hworkers hstarted
  exact ⟨h.taken, fun other hother => (h.answered other hother).imp_right (mt hpending), h.served,
    h.fresh, h.ordered, h.sentinel, h.numbered, h.counted⟩

variable {rest : List PQItem}

theorem mem_numbers_of_pop (hpop : pop s.executor.queue = some (item, rest)) (number : ℕ) :
    number ∈ s.numbers ↔ number = item.number ∨ number ∈ rest.map PQItem.number := by
  rw [numbers, ← ((PQItem.pop_spec hpop).1.map PQItem.number).mem_iff, map_cons, mem_cons]

theorem mem_queue_of_pop (hpop : pop s.executor.queue = some (item, rest)) {other : PQItem}
    (h : other ∈ rest) :
    other ∈ s.executor.queue :=
  (pop_spec hpop).1.subset (mem_cons_of_mem _ h)

theorem Serving.none_queued (h : Serving s) (hpop : pop s.executor.queue = some (item, rest))
    (hsentinel : s.IsSentinel item) :
    ∀ number < s.accepted, number ∉ s.numbers := by
  intro number hnumber hmem
  obtain ⟨hperm, hleast⟩ := pop_spec hpop
  obtain ⟨other, hother, rfl⟩ := mem_map.mp hmem
  have hpriority := h.sentinel item (hperm.subset mem_cons_self) hsentinel
  obtain ⟨first, hfirst, hle, _⟩ := hsentinel
  have hbefore : ∀ first' ∈ s.closed, other.number < first' := by
    intro first' hfirst'
    rw [accepted, mem_def.mp hfirst'] at hnumber
    exact hnumber
  have hordered := h.ordered other hother hbefore
  have hlt := hbefore first hfirst
  have hnot := hleast other hother
  rw [PQItem.Before] at hnot
  omega

theorem Serving.takeSentinel (h : Serving s)
    (hwaiting : s.executor.workers[worker]? = some .waiting)
    (hpop : PQItem.pop s.executor.queue = some (item, rest)) (hsentinel : s.IsSentinel item) :
    Serving { s with
      executor := { s.executor with
        queue := rest
        workers := s.executor.workers.set worker .stopped }
      unfinishedTasks := s.unfinishedTasks - 1 } where
  taken number hnumber :=
    .inr ((h.taken number hnumber).resolve_left (h.none_queued hpop hsentinel number hnumber))
  answered number hnumber := (h.answered number hnumber).imp_left fun ⟨other, hrunning⟩ =>
    ⟨other, running_set hwaiting PQWorker.noConfusion hrunning⟩
  served := by
    refine .inr ⟨?_, fun number hnumber hmem => ?_⟩
    · exact hsentinel.elim fun first hfirst => isSome_of_mem hfirst.1
    · exact h.none_queued hpop hsentinel number hnumber ((mem_numbers_of_pop hpop number).mpr (.inr hmem))
  fresh other hother := h.fresh other (mem_queue_of_pop hpop hother)
  ordered other hother := h.ordered other (mem_queue_of_pop hpop hother)
  sentinel other hother hother' := by
    refine h.sentinel other (mem_queue_of_pop hpop hother) ?_
    simpa [IsSentinel, maxWorkers] using hother'
  numbered := by simpa [maxWorkers] using h.numbered
  counted := by
    have hcounted := h.counted
    have hlength : rest.length + 1 = s.executor.queue.length := (PQItem.pop_spec hpop).1.length_eq
    have hbusy := countP_set .stopped hwaiting
    simp only [isRunning, Bool.toNat_false, Nat.add_zero] at hbusy
    dsimp only
    omega

theorem Serving.takeJob (h : Serving s) (hwaiting : s.executor.workers[worker]? = some .waiting)
    (hpop : PQItem.pop s.executor.queue = some (item, rest)) :
    Serving { s with
      executor := { s.executor with
        queue := rest
        workers := s.executor.workers.set worker (.running item.number)
        started := s.executor.started ++ [item.number] } } where
  taken number hnumber := by
    rcases h.taken number hnumber with hmem | hstarted
    · rcases (mem_numbers_of_pop hpop number).mp hmem with rfl | hrest
      · exact .inr (mem_append_right _ (mem_singleton_self _))
      · exact .inl hrest
    · exact .inr (mem_append_left _ hstarted)
  answered number hnumber := by
    rcases mem_append.mp hnumber with hold | hnew
    · exact (h.answered number hold).imp_left fun ⟨other, hrunning⟩ =>
        ⟨other, running_set hwaiting PQWorker.noConfusion hrunning⟩
    · obtain rfl := mem_singleton.mp hnew
      exact .inl ⟨worker, List.getElem?_set_self (List.getElem?_eq_some_iff.mp hwaiting).1⟩
  served := .inl ⟨worker, _, List.getElem?_set_self (List.getElem?_eq_some_iff.mp hwaiting).1,
    PQWorker.noConfusion⟩
  fresh other hother := h.fresh other (mem_queue_of_pop hpop hother)
  ordered other hother := h.ordered other (mem_queue_of_pop hpop hother)
  sentinel other hother hother' := by
    refine h.sentinel other (mem_queue_of_pop hpop hother) ?_
    simpa [IsSentinel, maxWorkers] using hother'
  numbered := by simpa [maxWorkers] using h.numbered
  counted := by
    have hcounted := h.counted
    have hlength : rest.length + 1 = s.executor.queue.length := (pop_spec hpop).1.length_eq
    have hbusy := countP_set (.running item.number) hwaiting
    simp only [isRunning, Bool.toNat_false, Bool.toNat_true, Nat.add_zero] at hbusy
    dsimp only
    omega

theorem Serving.get (h : Serving s) (worker : ℕ) : Serving (s.get worker) := by
  rcases s.get_cases worker with heq | ⟨item, rest, hwaiting, hpop, ⟨hsentinel, heq⟩ | ⟨_, heq⟩⟩
  · exact heq.symm ▸ h
  · exact heq.symm ▸ h.takeSentinel hwaiting hpop hsentinel
  · exact heq.symm ▸ h.takeJob hwaiting hpop

variable {done : ℕ → DoneFuture}

theorem update_ne_pending {new : DoneFuture} (hnew : new ≠ .pending) (other : ℕ)
    (h : done other ≠ .pending) :
    update done number new other ≠ .pending := by
  rcases eq_or_ne other number with rfl | hne
  · rwa [update_self]
  · rwa [update_of_ne hne]

variable {outcome : JobOutcome}

theorem ne_pending_of_settle {done new : DoneFuture} (h : done.settle outcome = some new) :
    new ≠ .pending := by
  rintro rfl
  cases done <;> cases outcome <;> exact absurd h (by decide)

theorem Serving.endJob (h : Serving s) {worker number : ℕ} {new : PQWorker}
    (hrunning : s.executor.workers[worker]? = some (.running number)) (hnew : new.isRunning = false)
    (hdone : done number ≠ .pending)
    (hframe : ∀ other, s.executor.done other ≠ .pending → done other ≠ .pending)
    (halive : new ≠ .stopped ∨ ∃ (other : ℕ) (live : PQWorker), other ≠ worker ∧
      s.executor.workers[other]? = some live ∧ live ≠ .stopped) :
    Serving { s with
      executor := { s.executor with
        done := done
        workers := s.executor.workers.set worker new }
      unfinishedTasks := s.unfinishedTasks - 1 } where
  taken := h.taken
  answered other hother := by
    rcases h.answered other hother with ⟨worker', hrunning'⟩ | hanswered
    · rcases eq_or_ne other number with rfl | hne
      · exact .inr hdone
      · refine .inl ⟨worker', running_set hrunning (fun heq => hne ?_) hrunning'⟩
        exact (running.inj heq).symm
    · exact .inr (hframe other hanswered)
  served := by
    left
    rcases halive with hlive | ⟨other, live, hne, hlive, hlive'⟩
    · exact ⟨worker, new, List.getElem?_set_self (List.getElem?_eq_some_iff.mp hrunning).1, hlive⟩
    · exact ⟨other, live, (getElem?_set_ne hne.symm).trans hlive, hlive'⟩
  fresh := h.fresh
  ordered := h.ordered
  sentinel other hother hother' := by
    refine h.sentinel other hother ?_
    simpa [IsSentinel, maxWorkers] using hother'
  numbered := by simpa [maxWorkers] using h.numbered
  counted := by
    have hcounted := h.counted
    have hbusy := countP_set new hrunning
    rw [hnew] at hbusy
    simp only [isRunning, Bool.toNat_false, Bool.toNat_true, Nat.add_zero] at hbusy
    dsimp only
    omega

theorem Serving.finish (h : Serving s) (hends : Sustains s (.work (.finish worker outcome))) :
    Serving (s.finish worker outcome) := by
  rcases s.finish_cases worker outcome with heq | ⟨number, hrunning, ⟨done, hsettle, heq⟩ | ⟨hsettle, heq⟩⟩
  · exact heq.symm ▸ h
  · have hdone := ne_pending_of_settle hsettle
    rw [heq]
    apply h.endJob hrunning rfl
    · rwa [update_self]
    · exact update_ne_pending hdone
    · exact .inl PQWorker.noConfusion
  · rcases hends number hrunning with hawaited | ⟨hdone, other, hne, live, hlive, hlive'⟩
    · have hsome := (DoneFuture.settle_iff _ _).mpr hawaited
      rw [hsettle] at hsome
      cases hsome
    · rw [heq]
      exact h.endJob hrunning rfl hdone (fun _ => id) (.inr ⟨other, live, hne, hlive, hlive'⟩)

theorem length_sentinels : s.sentinels.length = s.maxWorkers := by
  rw [sentinels, length_map, length_range]

theorem mem_sentinels (h : item ∈ s.sentinels) :
    item.priority = sentinelPriority ∧ s.executor.counter ≤ item.number ∧
      item.number < s.executor.counter + s.maxWorkers := by
  obtain ⟨i, hi, rfl⟩ := mem_map.mp h
  exact ⟨rfl, Nat.le_add_right _ _, Nat.add_lt_add_left (mem_range.mp hi) _⟩

theorem shutdown_closed (h : s.closed.isSome) (wait : Bool) : s.shutdown wait = s := if_pos h

theorem shutdown_open (h : s.closed = none) (wait : Bool) : s.shutdown wait = { s with
    executor := { s.executor with
      queue := s.executor.queue ++ s.sentinels
      counter := s.executor.counter + s.maxWorkers }
    unfinishedTasks := s.unfinishedTasks + s.maxWorkers
    closed := some s.executor.counter
    joining := wait
    cancelled := if s.kind = .eventLoop ∨ wait = false then s.liveWorkers else s.cancelled } := by
  rw [shutdown, h]
  exact if_neg Bool.noConfusion

theorem Serving.shutdown (h : Serving s) (wait : Bool) : Serving (s.shutdown wait) := by
  cases hclosed : s.closed with
  | some first => rwa [shutdown_closed (hclosed ▸ rfl)]
  | none =>
    rw [shutdown_open hclosed]
    have haccepted : s.accepted = s.executor.counter := by rw [accepted, hclosed, getD_none]
    refine ⟨fun number hnumber => ?_, h.answered, .inl ?_, fun item hitem => ?_,
      fun item hitem hbefore => ?_, fun item hitem hsentinel => ?_, fun first hfirst => ?_, ?_⟩
    · rcases h.taken number (haccepted.symm ▸ hnumber) with hmem | hstarted
      · left
        rw [numbers]
        exact map_append ▸ mem_append_left _ hmem
      · exact .inr hstarted
    · refine h.served.resolve_right fun hnone => ?_
      rw [hclosed] at hnone
      cases hnone.1
    · rcases mem_append.mp hitem with hold | hnew
      · exact Nat.lt_add_right _ (h.fresh item hold)
      · exact (mem_sentinels hnew).2.2
    · rcases mem_append.mp hitem with hold | hnew
      · refine h.ordered item hold fun first hfirst => ?_
        rw [hclosed] at hfirst
        cases hfirst
      · exact Int.le_of_eq (mem_sentinels hnew).1
    · rcases mem_append.mp hitem with hold | hnew
      · obtain ⟨first, hfirst, hle, _⟩ := hsentinel
        obtain rfl := mem_some_iff.mp hfirst
        exact absurd (h.fresh item hold) (not_lt.mpr hle)
      · exact (mem_sentinels hnew).1
    · obtain rfl := mem_some_iff.mp hfirst
      exact le_rfl
    · have hcounted := h.counted
      have hlength := s.length_sentinels
      dsimp only
      rw [length_append]
      omega

theorem Serving.over (h : Serving s) (hunfinished : s.unfinishedTasks = 0) (hclosed : s.closed.isSome) :
    Over s := by
  obtain ⟨first, hfirst⟩ := isSome_iff_exists.mp hclosed
  have haccepted : s.accepted = first := by rw [accepted, hfirst, getD_some]
  have hcounted := h.counted
  have hqueue : s.executor.queue = [] := eq_nil_of_length_eq_zero (by omega)
  have hidle : s.executor.workers.countP isRunning = 0 := by omega
  refine ⟨first, hfirst, haccepted ▸ h.accepted_le, fun number hnumber => ⟨?_, ?_⟩⟩
  · rw [hqueue]
    exact not_mem_nil
  · have hstarted : number ∈ s.executor.started := by
      refine (h.taken number (haccepted.symm ▸ hnumber)).resolve_left ?_
      rw [numbers, hqueue]
      exact not_mem_nil
    refine (h.answered number hstarted).resolve_left ?_
    rintro ⟨worker, hrunning⟩
    exact countP_eq_zero.mp hidle _ (mem_of_getElem? hrunning) rfl

end ClosingExecutor

end LMCache
