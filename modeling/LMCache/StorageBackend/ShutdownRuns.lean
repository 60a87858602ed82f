import LMCache.StorageBackend.ExecutorShutdown

namespace LMCache

open List

namespace ClosingExecutor

open Execution

variable {s : ClosingExecutor}

theorem over_of_frame {t : ClosingExecutor} (h : Over s) (hclosed : t.closed = s.closed)
    (hcounter : s.executor.counter ≤ t.executor.counter)
    (hqueue : ∀ item ∈ t.executor.queue, item ∈ s.executor.queue ∨ s.executor.counter ≤ item.number)
    (hdone : ∀ number, s.executor.done number ≠ .pending → t.executor.done number ≠ .pending) :
    Over t := by
  obtain ⟨first, hfirst, hle, hsettled⟩ := h
  refine ⟨first, hclosed ▸ hfirst, hle.trans hcounter, fun number hnumber => ⟨fun hmem => ?_, ?_⟩⟩
  · obtain ⟨item, hitem, rfl⟩ := mem_map.mp hmem
    rcases hqueue item hitem with hold | hnew
    · exact (hsettled _ hnumber).1 (mem_map_of_mem hold)
    · omega
  · exact hdone number (hsettled number hnumber).2

theorem Over.finish (h : Over s) (worker : ℕ) (outcome : JobOutcome) :
    Over (s.finish worker outcome) := by
  rcases s.finish_cases worker outcome with heq | ⟨number, _, ⟨done, hsettle, heq⟩ | ⟨_, heq⟩⟩
  · exact heq.symm ▸ h
  · rw [heq]
    exact over_of_frame h rfl le_rfl (fun _ => .inl)
      (update_ne_pending (ne_pending_of_settle hsettle))
  · rw [heq]
    exact over_of_frame h rfl le_rfl (fun _ => .inl) (fun _ => id)

theorem Over.get (h : Over s) (worker : ℕ) : Over (s.get worker) := by
  rcases s.get_cases worker with heq | ⟨item, rest, _, hpop, ⟨_, heq⟩ | ⟨_, heq⟩⟩
  · exact heq.symm ▸ h
  · rw [heq]
    exact over_of_frame h rfl le_rfl (fun _ hitem => .inl (mem_queue_of_pop hpop hitem)) (fun _ => id)
  · rw [heq]
    exact over_of_frame h rfl le_rfl (fun _ hitem => .inl (mem_queue_of_pop hpop hitem)) (fun _ => id)

theorem Over.cancelTask (h : Over s) (worker : ℕ) (reaction : Option JobOutcome) :
    Over (s.cancelTask worker reaction) := by
  unfold ClosingExecutor.cancelTask
  split
  · exact h
  · cases s.kind with
    | threadPool => exact h.finish worker .interrupted
    | eventLoop =>
      cases reaction with
      | some outcome => exact h.finish worker outcome
      | none => exact h
  · exact h

theorem Over.cancelWorker (h : Over s) (worker : ℕ) (reaction : Option JobOutcome) :
    Over (s.cancelWorker worker reaction) := by
  have herase : Over { s with cancelled := s.cancelled.erase worker } := h
  rw [ClosingExecutor.cancelWorker]
  split_ifs
  · exact herase.cancelTask worker reaction
  · exact h

theorem Over.exec (h : Over s) (event : ShutdownEvent) : Over (s.exec event) := by
  cases event with
  | work event =>
    cases event with
    | submitJob priority =>
      refine over_of_frame h rfl (Nat.le_succ _) (fun item hitem => ?_) (fun _ => id)
      rcases mem_queue_submitJob hitem with hold | rfl
      · exact .inl hold
      · exact .inr le_rfl
    | cancelSubmitter number =>
      obtain ⟨hqueue, hcounter, _, _⟩ := cancelSubmitter_frame s.executor number
      exact over_of_frame h rfl hcounter.ge (fun item hitem => .inl (hqueue ▸ hitem))
        (fun _ => mt pending_cancelSubmitter)
    | get worker => exact h.get worker
    | finish worker outcome => exact h.finish worker outcome
  | shutdown wait =>
    change Over (s.shutdown wait)
    rwa [shutdown_closed (h.elim fun first hfirst => Option.isSome_of_mem hfirst.1)]
  | joined =>
    change Over s.joined
    rw [ClosingExecutor.joined]
    by_cases hjoins : s.joining ∧ s.unfinishedTasks = 0
    · rw [if_pos hjoins]
      exact h
    · rwa [if_neg hjoins]
  | cancelWorker worker reaction => exact h.cancelWorker worker reaction

theorem finish_frame (s : ClosingExecutor) (worker : ℕ) (outcome : JobOutcome) :
    (s.finish worker outcome).kind = s.kind ∧ (s.finish worker outcome).closed = s.closed ∧
      (s.finish worker outcome).cancelled = s.cancelled := by
  rcases s.finish_cases worker outcome with heq | ⟨_, _, ⟨_, _, heq⟩ | ⟨_, heq⟩⟩
  · exact heq.symm ▸ ⟨rfl, rfl, rfl⟩
  · exact heq.symm ▸ ⟨rfl, rfl, rfl⟩
  · exact heq.symm ▸ ⟨rfl, rfl, rfl⟩

theorem get_frame (s : ClosingExecutor) (worker : ℕ) :
    (s.get worker).kind = s.kind ∧ (s.get worker).closed = s.closed ∧
      (s.get worker).cancelled = s.cancelled := by
  rcases s.get_cases worker with heq | ⟨_, _, _, _, ⟨_, heq⟩ | ⟨_, heq⟩⟩
  · exact heq.symm ▸ ⟨rfl, rfl, rfl⟩
  · exact heq.symm ▸ ⟨rfl, rfl, rfl⟩
  · exact heq.symm ▸ ⟨rfl, rfl, rfl⟩

theorem work_frame (s : ClosingExecutor) (event : PQEvent) :
    (s.exec (.work event)).kind = s.kind ∧ (s.exec (.work event)).closed = s.closed ∧
      (s.exec (.work event)).cancelled = s.cancelled := by
  cases event with
  | submitJob priority => exact ⟨rfl, rfl, rfl⟩
  | cancelSubmitter number => exact ⟨rfl, rfl, rfl⟩
  | get worker => exact s.get_frame worker
  | finish worker outcome => exact s.finish_frame worker outcome

variable {event : PQEvent}

theorem Serving.work (h : Serving s) (hsustains : Sustains s (.work event)) :
    Serving (s.exec (.work event)) := by
  cases event with
  | submitJob priority => exact h.submitJob hsustains
  | cancelSubmitter number => exact h.cancelSubmitter number
  | get worker => exact h.get worker
  | finish worker outcome => exact h.finish hsustains

structure Draining (s : ClosingExecutor) : Prop where
  kind : s.kind = .threadPool
  closed : s.closed.isSome
  phase : Serving s ∧ s.cancelled = [] ∨ Over s

theorem Draining.not_lost (h : Draining s) : ¬ Lost s := by
  rcases h.phase with ⟨hserving, _⟩ | hover
  · exact hserving.not_lost
  · exact hover.not_lost

theorem cancelTask_frame (s : ClosingExecutor) (worker : ℕ) (reaction : Option JobOutcome) :
    (s.cancelTask worker reaction).kind = s.kind ∧
      (s.cancelTask worker reaction).closed = s.closed := by
  unfold cancelTask
  split
  · exact ⟨rfl, rfl⟩
  · split
    · exact ⟨(s.finish_frame worker _).1, (s.finish_frame worker _).2.1⟩
    · cases reaction with
      | some outcome => exact ⟨(s.finish_frame worker _).1, (s.finish_frame worker _).2.1⟩
      | none => exact ⟨rfl, rfl⟩
  · exact ⟨rfl, rfl⟩

theorem closed_exec (h : s.closed.isSome) (event : ShutdownEvent) :
    (s.exec event).kind = s.kind ∧ (s.exec event).closed = s.closed := by
  cases event with
  | work event => exact ⟨(s.work_frame event).1, (s.work_frame event).2.1⟩
  | shutdown wait =>
    change (s.shutdown wait).kind = s.kind ∧ (s.shutdown wait).closed = s.closed
    rw [shutdown_closed h]
    exact ⟨rfl, rfl⟩
  | joined =>
    change s.joined.kind = s.kind ∧ s.joined.closed = s.closed
    rw [joined]
    split_ifs <;> exact ⟨rfl, rfl⟩
  | cancelWorker worker reaction =>
    change (s.cancelWorker worker reaction).kind = s.kind ∧
      (s.cancelWorker worker reaction).closed = s.closed
    rw [cancelWorker]
    split_ifs
    · exact cancelTask_frame { s with cancelled := s.cancelled.erase worker } worker reaction
    · exact ⟨rfl, rfl⟩

theorem Draining.exec (h : Draining s) {event : ShutdownEvent} (hsustains : Sustains s event) :
    Draining (s.exec event) := by
  obtain ⟨hkind, hclosed⟩ := closed_exec h.closed event
  refine ⟨hkind.trans h.kind, hclosed ▸ h.closed, ?_⟩
  rcases h.phase with ⟨hserving, hnone⟩ | hover
  · cases event with
    | work event => exact .inl ⟨hserving.work hsustains, (s.work_frame event).2.2.trans hnone⟩
    | shutdown wait =>
      change Serving (s.shutdown wait) ∧ (s.shutdown wait).cancelled = [] ∨ Over (s.shutdown wait)
      rw [shutdown_closed h.closed]
      exact .inl ⟨hserving, hnone⟩
    | joined =>
      by_cases hjoins : s.joining ∧ s.unfinishedTasks = 0
      · exact .inr ((hserving.over hjoins.2 h.closed).exec .joined)
      · have hsame : s.exec .joined = s := if_neg hjoins
        rw [hsame]
        exact .inl ⟨hserving, hnone⟩
    | cancelWorker worker reaction =>
      have hsame : s.exec (.cancelWorker worker reaction) = s := by
        refine if_neg ?_
        rw [hnone]
        exact not_mem_nil
      rw [hsame]
      exact .inl ⟨hserving, hnone⟩
  · exact .inr (hover.exec event)

variable {worker : ℕ}

theorem mem_liveWorkers {live : PQWorker} (h : s.executor.workers[worker]? = some live)
    (hlive : live ≠ .stopped) : worker ∈ s.liveWorkers := by
  refine List.mem_filter.mpr ⟨List.mem_range.mpr (List.getElem?_eq_some_iff.mp h).1, ?_⟩
  rw [h]
  exact decide_eq_true fun heq => hlive (Option.some.inj heq)

theorem set_stopped {workers : List PQWorker}
    (h : ∀ live, workers[worker]? = some live → live = .stopped) :
    workers.set worker .stopped = workers := by
  apply ext_getElem?
  intro other
  rcases eq_or_ne worker other with rfl | hne
  · cases hold : workers[worker]? with
    | none => rw [getElem?_set_self', hold, Option.map_eq_map, Option.map_none]
    | some live => rw [getElem?_set_self', hold, h live hold]; rfl
  · exact getElem?_set_ne hne

theorem finish_interrupted {worker number : ℕ}
    (h : s.executor.workers[worker]? = some (.running number)) :
    s.finish worker .interrupted = { s with
      executor := { s.executor with workers := s.executor.workers.set worker .stopped }
      unfinishedTasks := s.unfinishedTasks - 1 } := by
  rw [finish, h]
  dsimp only
  rw [AsyncPQExecutor.finish, h]
  rfl

theorem cancelTask_interrupted (s : ClosingExecutor) (worker : ℕ) :
    ∃ unfinishedTasks, s.cancelTask worker (some .interrupted) = { s with
      executor := { s.executor with workers := s.executor.workers.set worker .stopped }
      unfinishedTasks := unfinishedTasks } := by
  unfold cancelTask
  split
  · exact ⟨s.unfinishedTasks, rfl⟩
  · next number hrunning =>
    refine ⟨s.unfinishedTasks - 1, ?_⟩
    rw [← finish_interrupted hrunning]
    cases s.kind with
    | threadPool => rfl
    | eventLoop => rfl
  · next hwaiting hrunning =>
    refine ⟨s.unfinishedTasks, ?_⟩
    rw [set_stopped]
    intro live hlive
    cases live with
    | waiting => exact absurd hlive hwaiting
    | running number => exact absurd hlive (hrunning number)
    | stopped => rfl

theorem cancelWorker_interrupted (h : ∀ live,
    s.executor.workers[worker]? = some live → live ≠ .stopped → worker ∈ s.cancelled) :
    ∃ unfinishedTasks, s.cancelWorker worker (some .interrupted) = { s with
      executor := { s.executor with workers := s.executor.workers.set worker .stopped }
      unfinishedTasks := unfinishedTasks
      cancelled := s.cancelled.erase worker } := by
  rw [cancelWorker]
  split_ifs with hmem
  · exact cancelTask_interrupted { s with cancelled := s.cancelled.erase worker } worker
  · refine ⟨s.unfinishedTasks, ?_⟩
    rw [erase_of_not_mem hmem, set_stopped fun live hlive =>
      Classical.byContradiction fun hne => hmem (h live hlive hne)]

def cancelAll (workers : List ℕ) : List ShutdownEvent :=
  workers.map fun worker => .cancelWorker worker (some .interrupted)

theorem final_cancelAll (workers : List ℕ)
    (h : ∀ (worker : ℕ) (live : PQWorker), s.executor.workers[worker]? = some live →
      live ≠ .stopped → worker ∈ workers ∧ worker ∈ s.cancelled) :
    (∀ worker ∈ (final exec s (cancelAll workers)).executor.workers, worker = .stopped) ∧
      (final exec s (cancelAll workers)).closed = s.closed ∧
      (final exec s (cancelAll workers)).executor.queue = s.executor.queue ∧
      (final exec s (cancelAll workers)).executor.started = s.executor.started ∧
      (final exec s (cancelAll workers)).executor.done = s.executor.done := by
  induction workers generalizing s with
  | nil =>
    refine ⟨fun live hlive => ?_, rfl, rfl, rfl, rfl⟩
    obtain ⟨worker, hworker⟩ := mem_iff_getElem?.mp hlive
    by_contra hne
    exact not_mem_nil (h worker live hworker hne).1
  | cons worker workers ih =>
    obtain ⟨unfinishedTasks, heq⟩ :=
      cancelWorker_interrupted fun live hlive hne => (h worker live hlive hne).2
    change s.exec (.cancelWorker worker (some .interrupted)) = _ at heq
    rw [cancelAll, map_cons, final_cons, heq]
    refine ih fun other live hlive hne => ?_
    have hother : other ≠ worker := by
      rintro rfl
      refine hne ?_
      have hlt := (List.getElem?_eq_some_iff.mp hlive).1
      rw [length_set] at hlt
      exact (Option.some.inj ((getElem?_set_self hlt).symm.trans hlive)).symm
    have hold := h other live ((getElem?_set_ne hother.symm).symm.trans hlive) hne
    exact ⟨(mem_cons.mp hold.1).resolve_left hother, (mem_erase_of_ne hother).mpr hold.2⟩

theorem sustains_cancelAll (workers : List ℕ) (s : ClosingExecutor) :
    Along exec Sustains s (cancelAll workers) := by
  induction workers generalizing s with
  | nil => trivial
  | cons worker workers ih => exact ⟨trivial, ih _⟩

def LosesNone (s : ClosingExecutor) : Prop :=
  ∀ after, Along exec Sustains (s.exec (.shutdown true)) after →
    ¬ Lost (final exec (s.exec (.shutdown true)) after)

theorem cancelled_shutdown (hopen : s.closed = none) (hkind : s.kind = .eventLoop) (wait : Bool) :
    (s.shutdown wait).cancelled = s.liveWorkers := by
  rw [shutdown_open hopen]
  exact if_pos (.inl hkind)

theorem Serving.lost_of_cancels (h : Serving s) (hopen : s.closed = none)
    (hkind : s.kind = .eventLoop) (hsettled : ¬ Settled s.executor.counter s.executor) :
    ¬ LosesNone s := by
  intro hnone
  have hshutdown := shutdown_open hopen true
  have hlive : ∀ (worker : ℕ) (live : PQWorker),
      (s.shutdown true).executor.workers[worker]? = some live → live ≠ .stopped →
        worker ∈ s.liveWorkers ∧ worker ∈ (s.shutdown true).cancelled := by
    intro worker live hworker hlive
    rw [cancelled_shutdown hopen hkind, and_self]
    rw [hshutdown] at hworker
    exact mem_liveWorkers hworker hlive
  obtain ⟨hstopped, hclosed, hqueue, hstarted, hdone⟩ := final_cancelAll s.liveWorkers hlive
  refine hnone (cancelAll s.liveWorkers) (sustains_cancelAll _ _) ?_
  obtain ⟨number, hnumber, hlost⟩ : ∃ number < s.executor.counter,
      number ∈ s.numbers ∨ s.executor.done number = .pending := by
    by_contra hall
    refine hsettled fun number hnumber => ⟨fun hmem => hall ⟨number, hnumber, .inl hmem⟩, ?_⟩
    exact fun hpending => hall ⟨number, hnumber, .inr hpending⟩
  have haccepted : s.accepted = s.executor.counter := by rw [accepted, hopen, Option.getD_none]
  have hqueued : number ∈ s.numbers → number ∈
      (final exec (s.shutdown true) (cancelAll s.liveWorkers)).executor.queue.map PQItem.number := by
    intro hmem
    rw [hqueue, hshutdown, map_append]
    exact mem_append_left _ hmem
  refine ⟨s.executor.counter, ?_, hstopped, number, hnumber, ?_⟩
  · exact hclosed.trans (congrArg closed hshutdown)
  · rcases h.taken number (haccepted.symm ▸ hnumber) with hmem | htaken
    · exact .inl (hqueued hmem)
    · rcases hlost with hmem | hpending
      · exact .inl (hqueued hmem)
      · refine .inr ⟨?_, ?_⟩
        · change number ∈ (final exec (s.shutdown true) (cancelAll s.liveWorkers)).executor.started
          rwa [hstarted, hshutdown]
        · change (final exec (s.shutdown true) (cancelAll s.liveWorkers)).executor.done number = _
          rwa [hdone, hshutdown]

theorem over_shutdown (hopen : s.closed = none) (hsettled : Settled s.executor.counter s.executor)
    (wait : Bool) : Over (s.shutdown wait) := by
  rw [shutdown_open hopen]
  refine ⟨s.executor.counter, rfl, Nat.le_add_right _ _, fun number hnumber => ⟨fun hmem => ?_, ?_⟩⟩
  · obtain ⟨item, hitem, rfl⟩ := mem_map.mp hmem
    rcases mem_append.mp hitem with hold | hnew
    · exact (hsettled item.number hnumber).1 (mem_map_of_mem hold)
    · exact absurd hnumber (Nat.not_lt.mpr (mem_sentinels hnew).2.1)
  · exact (hsettled number hnumber).2

theorem Over.losesNone (h : Over (s.shutdown true)) : LosesNone s := fun _ hafter =>
  Over.not_lost (invariant_final (fun _ event hover _ => hover.exec event) h hafter)

theorem Draining.losesNone (h : Draining (s.shutdown true)) : LosesNone s := fun _ hafter =>
  Draining.not_lost (invariant_final (fun _ _ hdraining hends => hdraining.exec hends) h hafter)

structure Running (kind : ExecutorKind) (s : ClosingExecutor) : Prop where
  kind : s.kind = kind
  serving : Serving s
  closed : s.closed = none
  cancelled : s.cancelled = []

variable {kind : ExecutorKind}

theorem Running.work (h : Running kind s) (hsustains : Sustains s (.work event)) :
    Running kind (s.exec (.work event)) := by
  obtain ⟨hkind, hclosed, hcancelled⟩ := s.work_frame event
  exact ⟨hkind.trans h.kind, h.serving.work hsustains, hclosed.trans h.closed,
    hcancelled.trans h.cancelled⟩

theorem Running.draining (h : Running .threadPool s) : Draining (s.shutdown true) := by
  have hcancelled : (s.shutdown true).cancelled = [] := by
    rw [shutdown_open h.closed]
    refine (if_neg ?_).trans h.cancelled
    rw [h.kind]
    decide
  refine ⟨?_, ?_, .inl ⟨h.serving.shutdown true, hcancelled⟩⟩
  · rw [shutdown_open h.closed]
    exact h.kind
  · rw [shutdown_open h.closed]
    rfl

theorem running_final {events : List PQEvent} (h : Running kind s)
    (hevents : Along exec Sustains s (events.map .work)) :
    Running kind (final exec s (events.map .work)) := by
  induction events generalizing s with
  | nil => exact h
  | cons event events ih => exact ih (h.work hevents.1) hevents.2

theorem losesNone_iff (kind : ExecutorKind) {maxWorkers : ℕ} (hworkers : 0 < maxWorkers)
    (before : List PQEvent) (hbefore : Along exec Sustains (start kind maxWorkers) (before.map .work)) :
    LosesNone (final exec (start kind maxWorkers) (before.map .work)) ↔
      kind = .threadPool ∨
        Settled (final exec (start kind maxWorkers) (before.map .work)).executor.counter
          (final exec (start kind maxWorkers) (before.map .work)).executor := by
  have hstart : Running kind (start kind maxWorkers) :=
    ⟨rfl, serving_start kind hworkers, rfl, rfl⟩
  have hrunning := running_final hstart hbefore
  generalize final exec (start kind maxWorkers) (before.map .work) = s at hrunning ⊢
  constructor
  · intro hnone
    cases kind with
    | threadPool => exact .inl rfl
    | eventLoop =>
      right
      by_contra hsettled
      exact hrunning.serving.lost_of_cancels hrunning.closed hrunning.kind hsettled hnone
  · rintro (rfl | hsettled)
    · exact hrunning.draining.losesNone
    · exact (over_shutdown hrunning.closed hsettled true).losesNone

def busy : List PQEvent := [.submitJob 0, .submitJob 1, .get 0]

theorem losesNone_threadPool : LosesNone (final exec (start .threadPool 1) (busy.map .work)) :=
  (losesNone_iff .threadPool Nat.one_pos busy
    ⟨fun _ => by decide, fun _ => by decide, trivial, trivial⟩).mpr (.inl rfl)

theorem not_losesNone_eventLoop :
    ¬ LosesNone (final exec (start .eventLoop 1) (busy.map .work)) := by
  intro hnone
  refine hnone [.cancelWorker 0 (some .interrupted)] ⟨trivial, trivial⟩ ?_
  exact ⟨2, rfl, by decide, 0, by decide, .inr ⟨by decide, rfl⟩⟩

end ClosingExecutor

end LMCache
