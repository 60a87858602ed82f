import LMCache.Foundations.Execution
import Mathlib.Data.List.Perm.Basic
import Mathlib.Data.List.Range

namespace LMCache

open List

inductive JobOutcome
  | returned
  | raised
  | interrupted
  deriving DecidableEq, Repr

inductive DoneFuture
  | pending
  | cancelled
  | finished
  deriving DecidableEq, Repr

inductive PQWorker
  | waiting
  | running (number : ℕ)
  | stopped
  deriving DecidableEq, Repr

structure PQItem where
  priority : ℤ
  number : ℕ
  deriving DecidableEq, Repr

-- done has the future of each job by its number, started the jobs that workers have taken
structure AsyncPQExecutor where
  queue : List PQItem
  counter : ℕ
  done : ℕ → DoneFuture
  workers : List PQWorker
  started : List ℕ

inductive PQEvent
  | submitJob (priority : ℤ)
  | cancelSubmitter (number : ℕ)
  | get (worker : ℕ)
  | finish (worker : ℕ) (outcome : JobOutcome)
  deriving DecidableEq, Repr

namespace PQItem

def Before (a b : PQItem) : Prop :=
  a.priority < b.priority ∨ a.priority = b.priority ∧ a.number < b.number

instance (a b : PQItem) : Decidable (a.Before b) :=
  inferInstanceAs (Decidable (_ ∨ _ ∧ _))

def least : PQItem → List PQItem → PQItem
  | item, [] => item
  | item, other :: rest => least (if other.Before item then other else item) rest

def pop : List PQItem → Option (PQItem × List PQItem)
  | [] => none
  | item :: rest => some (least item rest, (item :: rest).erase (least item rest))

theorem least_spec (item : PQItem) (rest : List PQItem) :
    least item rest ∈ item :: rest ∧ ∀ other ∈ item :: rest, ¬ other.Before (least item rest) := by
  induction rest generalizing item with
  | nil =>
    refine ⟨mem_cons_self, fun other hother => ?_⟩
    obtain rfl := mem_singleton.mp hother
    simp [least, Before]
  | cons next rest ih =>
    rw [least]
    split_ifs with hbefore
    · obtain ⟨hmem, hleast⟩ := ih next
      refine ⟨mem_cons_of_mem _ hmem, fun other hother => ?_⟩
      rcases mem_cons.mp hother with rfl | hother
      · have hnext := hleast next mem_cons_self
        rw [Before] at *
        omega
      · exact hleast other hother
    · obtain ⟨hmem, hleast⟩ := ih item
      refine ⟨?_, fun other hother => ?_⟩
      · rcases mem_cons.mp hmem with heq | hmem
        · rw [heq]
          exact mem_cons_self
        · exact mem_cons_of_mem _ (mem_cons_of_mem _ hmem)
      · rcases mem_cons.mp hother with rfl | hother
        · exact hleast other mem_cons_self
        · rcases mem_cons.mp hother with rfl | hother
          · have hitem := hleast item mem_cons_self
            rw [Before] at *
            omega
          · exact hleast other (mem_cons_of_mem _ hother)

theorem pop_spec {queue rest : List PQItem} {item : PQItem} (h : pop queue = some (item, rest)) :
    (item :: rest).Perm queue ∧ ∀ other ∈ queue, ¬ other.Before item := by
  cases queue with
  | nil => cases h
  | cons first queue =>
    obtain ⟨rfl, rfl⟩ := Prod.mk.inj (Option.some.inj h)
    obtain ⟨hmem, hleast⟩ := least_spec first queue
    exact ⟨(perm_cons_erase hmem).symm, hleast⟩

end PQItem

namespace DoneFuture

def set : DoneFuture → Option DoneFuture
  | .pending => some .finished
  | _ => none

def settle (done : DoneFuture) : JobOutcome → Option DoneFuture
  | .returned =>
      match done.set with
      | some done => some done
      | none => done.set
  | .raised => done.set
  | .interrupted => none

theorem settle_iff (done : DoneFuture) (outcome : JobOutcome) :
    (done.settle outcome).isSome = true ↔ done = .pending ∧ outcome ≠ .interrupted := by
  cases done <;> cases outcome <;> simp [settle, set]

end DoneFuture

namespace AsyncPQExecutor

open Execution

def start (maxWorkers : ℕ) : AsyncPQExecutor :=
  ⟨[], 0, fun _ => .pending, replicate maxWorkers .waiting, []⟩

variable (s : AsyncPQExecutor)

def submitJob (priority : ℤ) : AsyncPQExecutor :=
  { s with queue := s.queue ++ [⟨priority, s.counter⟩], counter := s.counter + 1 }

def cancelSubmitter (number : ℕ) : AsyncPQExecutor :=
  if number < s.counter ∧ s.done number = .pending then
    { s with done := Function.update s.done number .cancelled }
  else s

def get (worker : ℕ) : AsyncPQExecutor :=
  match s.workers[worker]?, PQItem.pop s.queue with
  | some .waiting, some (item, rest) =>
      { s with
        queue := rest
        workers := s.workers.set worker (.running item.number)
        started := s.started ++ [item.number] }
  | _, _ => s

def finish (worker : ℕ) (outcome : JobOutcome) : AsyncPQExecutor :=
  match s.workers[worker]? with
  | some (.running number) =>
      match (s.done number).settle outcome with
      | some done =>
          { s with
            done := Function.update s.done number done
            workers := s.workers.set worker .waiting }
      | none => { s with workers := s.workers.set worker .stopped }
  | _ => s

def exec : PQEvent → AsyncPQExecutor
  | .submitJob priority => s.submitJob priority
  | .cancelSubmitter number => s.cancelSubmitter number
  | .get worker => s.get worker
  | .finish worker outcome => s.finish worker outcome

structure Serves (maxWorkers : ℕ) (s : AsyncPQExecutor) : Prop where
  workers : s.workers.length = maxWorkers ∧ .stopped ∉ s.workers
  once : (s.started ++ s.queue.map PQItem.number).Perm (range s.counter)
  drained : s.workers ≠ [] → (∀ number, .running number ∉ s.workers) →
    (.waiting ∈ s.workers → s.queue = []) → s.queue = []

def TakesLeast : PQEvent → Prop
  | .get worker => ∀ item rest, s.workers[worker]? = some .waiting →
      PQItem.pop s.queue = some (item, rest) → ∀ other ∈ s.queue, ¬ other.Before item
  | _ => True

def KeepsWorkers (maxWorkers : ℕ) (s : AsyncPQExecutor) (event : PQEvent) : Prop :=
  Serves maxWorkers (s.exec event) ∧ TakesLeast s event

def EndsAwaited : PQEvent → Prop
  | .finish worker outcome => ∀ number, s.workers[worker]? = some (.running number) →
      s.done number = .pending ∧ outcome ≠ .interrupted
  | _ => True

variable {maxWorkers : ℕ} {s : AsyncPQExecutor}

theorem takesLeast (s : AsyncPQExecutor) (event : PQEvent) : TakesLeast s event := by
  cases event with
  | get worker => exact fun item rest _ hpop => (PQItem.pop_spec hpop).2
  | _ => trivial

theorem drained_of_workers (h : .stopped ∉ s.workers) (hsome : s.workers ≠ [])
    (hidle : ∀ number, .running number ∉ s.workers) (hqueue : .waiting ∈ s.workers → s.queue = []) :
    s.queue = [] := by
  obtain ⟨worker, rest, hworkers⟩ := exists_cons_of_ne_nil hsome
  have hmem : worker ∈ s.workers := hworkers ▸ mem_cons_self
  cases worker with
  | waiting => exact hqueue hmem
  | running number => exact absurd hmem (hidle number)
  | stopped => exact absurd hmem h

theorem Serves.of_parts (hworkers : s.workers.length = maxWorkers) (halive : .stopped ∉ s.workers)
    (honce : (s.started ++ s.queue.map PQItem.number).Perm (range s.counter)) :
    Serves maxWorkers s :=
  ⟨⟨hworkers, halive⟩, honce, drained_of_workers halive⟩

theorem serves_start (maxWorkers : ℕ) : Serves maxWorkers (start maxWorkers) :=
  .of_parts length_replicate
    (fun hmem => PQWorker.noConfusion (eq_of_mem_replicate hmem)) (.refl _)

variable {worker : ℕ}

theorem notMem_set {new : PQWorker} (h : .stopped ∉ s.workers) (hnew : new ≠ .stopped) :
    .stopped ∉ s.workers.set worker new := fun hmem =>
  (mem_or_eq_of_mem_set hmem).elim h fun heq => hnew heq.symm

theorem Serves.submitJob (h : Serves maxWorkers s) (priority : ℤ) :
    Serves maxWorkers (s.submitJob priority) := by
  refine .of_parts h.workers.1 h.workers.2 ?_
  simp only [AsyncPQExecutor.submitJob, map_append, map_cons, map_nil, range_succ]
  rw [← append_assoc]
  exact h.once.append_right _

theorem Serves.cancelSubmitter (h : Serves maxWorkers s) (number : ℕ) :
    Serves maxWorkers (s.cancelSubmitter number) := by
  rw [AsyncPQExecutor.cancelSubmitter]
  split_ifs
  · exact .of_parts h.workers.1 h.workers.2 h.once
  · exact h

theorem Serves.get (h : Serves maxWorkers s) (worker : ℕ) : Serves maxWorkers (s.get worker) := by
  rw [AsyncPQExecutor.get]
  split
  · rename_i item rest _ hpop
    obtain ⟨hperm, _⟩ := PQItem.pop_spec hpop
    refine .of_parts (List.length_set.trans h.workers.1)
      (notMem_set h.workers.2 PQWorker.noConfusion) ?_
    rw [List.append_assoc, List.singleton_append]
    exact ((hperm.map PQItem.number).append_left _).trans h.once
  · exact h

variable {outcome : JobOutcome}

theorem finish_of_running {worker number : ℕ}
    (hrunning : s.workers[worker]? = some (.running number)) :
    Serves maxWorkers (s.finish worker outcome) →
      s.done number = .pending ∧ outcome ≠ .interrupted := by
  intro h
  rw [← DoneFuture.settle_iff]
  by_contra hnone
  have hstop : s.finish worker outcome = { s with workers := s.workers.set worker .stopped } := by
    rw [finish, hrunning]
    dsimp only
    rw [Option.not_isSome_iff_eq_none.mp hnone]
  rw [hstop] at h
  have hlt := (List.getElem?_eq_some_iff.mp hrunning).1
  exact h.workers.2 (mem_set hlt .stopped)

theorem Serves.finish (h : Serves maxWorkers s) (hends : EndsAwaited s (.finish worker outcome)) :
    Serves maxWorkers (s.finish worker outcome) := by
  rw [AsyncPQExecutor.finish]
  split
  · rename_i number hrunning
    obtain ⟨done, hdone⟩ := Option.isSome_iff_exists.mp
      ((DoneFuture.settle_iff _ _).mpr (hends number hrunning))
    rw [hdone]
    exact .of_parts (length_set.trans h.workers.1)
      (notMem_set h.workers.2 PQWorker.noConfusion) h.once
  · exact h

theorem keepsWorkers_step_iff (h : Serves maxWorkers s) (event : PQEvent) :
    KeepsWorkers maxWorkers s event ↔ EndsAwaited s event := by
  rw [KeepsWorkers, and_iff_left (takesLeast s event)]
  cases event with
  | submitJob priority => exact iff_of_true (h.submitJob priority) trivial
  | cancelSubmitter number => exact iff_of_true (h.cancelSubmitter number) trivial
  | get worker => exact iff_of_true (h.get worker) trivial
  | finish worker outcome =>
    exact ⟨fun hserves number hrunning => finish_of_running hrunning hserves, h.finish⟩

theorem keepsWorkers_iff (maxWorkers : ℕ) (events : List PQEvent) :
    Along exec (KeepsWorkers maxWorkers) (start maxWorkers) events ↔
      Along exec EndsAwaited (start maxWorkers) events :=
  along_iff_along (Q := fun _ _ => True) (I := Serves maxWorkers)
    (fun _ event h _ hends => ((keepsWorkers_step_iff h event).mpr hends).1)
    (fun _ event h _ => keepsWorkers_step_iff h event) (serves_start maxWorkers)
    (along_of_forall (fun _ _ => trivial) _ _)

def cancelledWhileRunning : List PQEvent :=
  [.submitJob 0, .get 0, .cancelSubmitter 0, .finish 0 .returned]

theorem not_keepsWorkers_cancelled :
    ¬ Along exec (KeepsWorkers 4) (start 4) cancelledWhileRunning := by
  rintro ⟨_, _, _, ⟨hserves, _⟩, _⟩
  exact absurd hserves.workers.2 (by decide)

end AsyncPQExecutor

end LMCache
