import LMCache.Foundations.Execution
import LMCache.Foundations.Turns

namespace LMCache

open List

inductive RWThread where
  | idle
  | readAsleep (timed : Bool)
  | readWoken (timed : Bool)
  | reading
  | writeAsleep (timed : Bool)
  | writeWoken (timed : Bool)
  | writing
deriving DecidableEq

structure RWLockWithTimeout where
  readers : ℤ
  writersWaiting : ℤ
  writerActive : Bool
  threads : List RWThread

-- late says that the deadline of a call with a timeout has passed when it looks at the clock
inductive RWEvent where
  | acquireRead (thread : ℕ) (timed late : Bool)
  | releaseRead (thread : ℕ)
  | acquireWrite (thread : ℕ) (timed late : Bool)
  | releaseWrite (thread : ℕ)
  | timeOut (thread : ℕ)
  | resume (thread : ℕ) (late : Bool)

def RWEvent.acquirer : RWEvent → Option ℕ
  | .acquireRead i _ _ | .acquireWrite i _ _ | .resume i _ => some i
  | _ => none

namespace RWThread

def wake : RWThread → RWThread
  | readAsleep timed => readWoken timed
  | writeAsleep timed => writeWoken timed
  | thread => thread

def holds : RWThread → Bool
  | reading | writing => true
  | _ => false

def readUnits : RWThread → ℤ
  | reading => 1
  | _ => 0

def writeUnits : RWThread → ℤ
  | writing => 1
  | _ => 0

def waitUnits : RWThread → ℤ
  | writeAsleep _ | writeWoken _ => 1
  | _ => 0

theorem readUnits_nonneg (c : RWThread) : 0 ≤ c.readUnits := by
  cases c <;> simp [readUnits]

theorem writeUnits_nonneg (c : RWThread) : 0 ≤ c.writeUnits := by
  cases c <;> simp [writeUnits]

theorem waitUnits_nonneg (c : RWThread) : 0 ≤ c.waitUnits := by
  cases c <;> simp [waitUnits]

end RWThread

namespace RWLockWithTimeout

open Execution Turns RWThread

def start (numThreads : ℕ) : RWLockWithTimeout := ⟨0, 0, false, replicate numThreads .idle⟩

def set (s : RWLockWithTimeout) (i : ℕ) (thread : RWThread) : RWLockWithTimeout :=
  { s with threads := s.threads.set i thread }

variable (s : RWLockWithTimeout)

def notifyAll : RWLockWithTimeout :=
  { s with threads := s.threads.map wake }

def readLoop (i : ℕ) (timed late : Bool) : RWLockWithTimeout :=
  if s.writerActive = true ∨ 0 < s.writersWaiting then
    if timed && late then s.set i .idle else s.set i (.readAsleep timed)
  else { s with readers := s.readers + 1 }.set i .reading

def releaseRead (i : ℕ) : RWLockWithTimeout :=
  let s := { s with readers := s.readers - 1 }.set i .idle
  if s.readers = 0 then s.notifyAll else s

def writeLoop (i : ℕ) (timed late : Bool) : RWLockWithTimeout :=
  if 0 < s.readers ∨ s.writerActive = true then
    if timed && late then { s with writersWaiting := s.writersWaiting - 1 }.set i .idle
    else s.set i (.writeAsleep timed)
  else
    { s with
      writerActive := true
      writersWaiting := s.writersWaiting - 1 }.set i .writing

def acquireWrite (i : ℕ) (timed late : Bool) : RWLockWithTimeout :=
  { s with writersWaiting := s.writersWaiting + 1 }.writeLoop i timed late

def releaseWrite (i : ℕ) : RWLockWithTimeout :=
  ({ s with writerActive := false }.set i .idle).notifyAll

def exec : RWEvent → RWLockWithTimeout
  | .acquireRead i timed late => if s.threads[i]? = some .idle then s.readLoop i timed late else s
  | .releaseRead i => if s.threads[i]? = some .reading then s.releaseRead i else s
  | .acquireWrite i timed late =>
      if s.threads[i]? = some .idle then s.acquireWrite i timed late else s
  | .releaseWrite i => if s.threads[i]? = some .writing then s.releaseWrite i else s
  | .timeOut i =>
      match s.threads[i]? with
      | some (.readAsleep true) => s.set i (.readWoken true)
      | some (.writeAsleep true) => s.set i (.writeWoken true)
      | _ => s
  | .resume i late =>
      match s.threads[i]? with
      | some (.readWoken timed) => s.readLoop i timed late
      | some (.writeWoken timed) => s.writeLoop i timed late
      | _ => s

def ReaderAsleep : Prop := ∃ timed, .readAsleep timed ∈ s.threads

def Awake : Prop :=
  s.ReaderAsleep → s.writerActive = true ∨ 0 < s.writersWaiting

structure Correct (s : RWLockWithTimeout) : Prop where
  excludes : ∀ (i j : ℕ) (thread : RWThread), i ≠ j → s.threads[i]? = some .writing →
    s.threads[j]? = some thread → thread.holds = false
  waiting : s.writersWaiting = tally waitUnits s.threads
  awake : s.Awake

def LeavesAlone (event : RWEvent) : Prop :=
  ∀ i ∈ event.acquirer, ∀ thread, (s.exec event).threads[i]? = some thread →
    thread.holds = false →
      (s.exec event).readers = s.readers ∧ (s.exec event).writerActive = s.writerActive

def Strands : RWEvent → Prop
  | .resume i late => late = true ∧ s.threads[i]? = some (.writeWoken true) ∧ 0 < s.readers ∧
      s.writerActive = false ∧ s.writersWaiting = 1 ∧ s.ReaderAsleep
  | _ => False

structure Inv (s : RWLockWithTimeout) : Prop where
  readers : s.readers = tally readUnits s.threads
  waiting : s.writersWaiting = tally waitUnits s.threads
  active : (if s.writerActive then 1 else 0) = tally writeUnits s.threads
  exclusive : s.writerActive = true → s.readers = 0

variable {s : RWLockWithTimeout} {i : ℕ} {c c' : RWThread}

theorem inv_start (numThreads : ℕ) : (start numThreads).Inv where
  readers := (tally_replicate (by rfl) numThreads).symm
  waiting := (tally_replicate (by rfl) numThreads).symm
  active := (tally_replicate (by rfl) numThreads).symm
  exclusive h := by cases h

theorem Inv.set (h : s.Inv) (hget : s.threads[i]? = some c) (c' : RWThread) {readers waiting : ℤ}
    {active : Bool} (hreaders : readers = s.readers - c.readUnits + c'.readUnits)
    (hwaiting : waiting = s.writersWaiting - c.waitUnits + c'.waitUnits)
    (hactive : (if active then 1 else 0) =
      (if s.writerActive then 1 else 0) - c.writeUnits + c'.writeUnits)
    (hexclusive : active = true → readers = 0) :
    Inv ⟨readers, waiting, active, s.threads.set i c'⟩ where
  readers := by rw [hreaders, h.readers, tally_set _ hget]
  waiting := by rw [hwaiting, h.waiting, tally_set _ hget]
  active := by rw [hactive, h.active, tally_set _ hget]
  exclusive := hexclusive

theorem Inv.notifyAll (h : s.Inv) : s.notifyAll.Inv := by
  refine ⟨h.readers.trans ?_, h.waiting.trans ?_, h.active.trans ?_, h.exclusive⟩
  all_goals
    refine (tally_map (fun c => ?_) s.threads).symm
    cases c <;> rfl

theorem not_readerAsleep_notifyAll (s : RWLockWithTimeout) : ¬ s.notifyAll.ReaderAsleep := by
  rintro ⟨timed, hmem⟩
  obtain ⟨c, _, hc⟩ := mem_map.mp hmem
  cases c <;> cases hc

theorem readerAsleep_of_set (hc' : ∀ timed, c' ≠ .readAsleep timed)
    (h : (s.set i c').ReaderAsleep) : s.ReaderAsleep := by
  obtain ⟨timed, hmem⟩ := h
  rcases mem_or_eq_of_mem_set hmem with hold | hnew
  · exact ⟨timed, hold⟩
  · exact absurd hnew.symm (hc' timed)

theorem readerAsleep_set (hget : s.threads[i]? = some c) (hc : ∀ timed, c ≠ .readAsleep timed)
    (h : s.ReaderAsleep) : (s.set i c').ReaderAsleep := by
  obtain ⟨timed, hmem⟩ := h
  exact ⟨timed, mem_set_of_ne hget c' hmem (hc timed).symm⟩

theorem Inv.readLoop (h : s.Inv) (hget : s.threads[i]? = some c)
    (hc : c = .idle ∨ ∃ timed, c = .readWoken timed) (timed late : Bool) :
    (s.readLoop i timed late).Inv := by
  have hunits : c.readUnits = 0 ∧ c.waitUnits = 0 ∧ c.writeUnits = 0 := by
    obtain rfl | ⟨_, rfl⟩ := hc <;> exact ⟨rfl, rfl, rfl⟩
  obtain ⟨hread, hwait, hwrite⟩ := hunits
  rw [RWLockWithTimeout.readLoop]
  split_ifs with hblocked
  · exact h.set hget .idle (by rw [hread]; simp [readUnits]) (by rw [hwait]; simp [waitUnits])
      (by rw [hwrite]; simp [writeUnits]) h.exclusive
  · exact h.set hget (.readAsleep timed) (by rw [hread]; simp [readUnits])
      (by rw [hwait]; simp [waitUnits]) (by rw [hwrite]; simp [writeUnits]) h.exclusive
  · exact h.set hget .reading (by rw [hread]; simp [readUnits]) (by rw [hwait]; simp [waitUnits])
      (by rw [hwrite]; simp [writeUnits]) fun hactive => absurd (.inl hactive) hblocked

theorem Awake.readLoop (h : s.Awake) (i : ℕ) (timed late : Bool) :
    (s.readLoop i timed late).Awake := by
  rw [RWLockWithTimeout.readLoop]
  split_ifs with hblocked
  · exact fun hasleep => h (readerAsleep_of_set (fun _ heq => by cases heq) hasleep)
  · exact fun _ => hblocked
  · exact fun hasleep => h (readerAsleep_of_set (fun _ heq => by cases heq) hasleep)

theorem Inv.writeLoop {timed : Bool} (h : s.Inv) (hget : s.threads[i]? = some (.writeWoken timed))
    (late : Bool) : (s.writeLoop i timed late).Inv := by
  rw [RWLockWithTimeout.writeLoop]
  split_ifs with hblocked
  · exact h.set hget .idle (by simp [readUnits]) (by simp [waitUnits]) (by simp [writeUnits])
      h.exclusive
  · exact h.set hget (.writeAsleep timed) (by simp [readUnits]) (by simp [waitUnits])
      (by simp [writeUnits]) h.exclusive
  · obtain ⟨hreaders, hidle⟩ := not_or.mp hblocked
    refine h.set hget .writing (by simp [readUnits]) (by simp [waitUnits])
      (by simp [hidle, writeUnits]) fun _ => ?_
    have hnonneg : 0 ≤ s.readers := by
      rw [h.readers]
      exact tally_nonneg readUnits_nonneg _
    exact Int.le_antisymm (not_lt.mp hreaders) hnonneg

theorem awake_writeLoop {timed late : Bool} (hwaiting : 0 < s.writersWaiting)
    (hget : s.threads[i]? = some (.writeWoken timed)) :
    (s.writeLoop i timed late).Awake ↔ ¬ ((timed && late) = true ∧ 0 < s.readers ∧
      s.writerActive = false ∧ s.writersWaiting = 1 ∧ s.ReaderAsleep) := by
  rw [RWLockWithTimeout.writeLoop]
  split_ifs with hblocked hlate
  · have hasleep : (RWLockWithTimeout.set { s with writersWaiting := s.writersWaiting - 1 } i
        .idle).ReaderAsleep ↔ s.ReaderAsleep :=
      ⟨readerAsleep_of_set (s := { s with writersWaiting := s.writersWaiting - 1 })
        (fun _ heq => by cases heq),
        readerAsleep_set (s := { s with writersWaiting := s.writersWaiting - 1 }) hget
          (fun _ heq => by cases heq)⟩
    rw [Awake, hasleep, and_iff_right hlate]
    change (s.ReaderAsleep → s.writerActive = true ∨ 0 < s.writersWaiting - 1) ↔ _
    cases hactive : s.writerActive with
    | true => simp
    | false =>
      have hreaders : 0 < s.readers := by simpa [hactive] using hblocked
      simp only [Bool.false_eq_true, false_or, hreaders, true_and, not_and]
      constructor
      · intro hawake hone hreader
        have := hawake hreader
        omega
      · intro hnot hreader
        have hne : s.writersWaiting ≠ 1 := fun hone => hnot hone hreader
        omega
  · exact iff_of_true (fun _ => .inr hwaiting) fun hall => absurd hall.1 hlate
  · refine iff_of_true (fun _ => .inl rfl) fun hall => hblocked (.inl hall.2.1)

theorem acquireWrite_eq (s : RWLockWithTimeout) (i : ℕ) (timed late : Bool) :
    s.acquireWrite i timed late =
      (RWLockWithTimeout.set { s with writersWaiting := s.writersWaiting + 1 } i
        (.writeWoken timed)).writeLoop i timed late := by
  simp only [acquireWrite, writeLoop, set, set_set]

theorem Inv.exec (h : s.Inv) (event : RWEvent) : (s.exec event).Inv := by
  cases event with
  | acquireRead i timed late =>
    rw [RWLockWithTimeout.exec]
    split_ifs with hget
    · exact h.readLoop hget (.inl rfl) timed late
    · exact h
  | releaseRead i =>
    rw [RWLockWithTimeout.exec]
    split_ifs with hget
    · have hset : Inv ⟨s.readers - 1, s.writersWaiting, s.writerActive, s.threads.set i .idle⟩ := by
        refine h.set hget .idle (by simp [readUnits]) (by simp [waitUnits]) (by simp [writeUnits])
          fun hactive => ?_
        have hle : 1 ≤ tally readUnits s.threads :=
          le_tally readUnits_nonneg (mem_of_getElem? hget)
        rw [← h.readers, h.exclusive hactive] at hle
        exact absurd hle (by decide)
      rw [RWLockWithTimeout.releaseRead]
      split_ifs
      · exact hset.notifyAll
      · exact hset
    · exact h
  | acquireWrite i timed late =>
    rw [RWLockWithTimeout.exec]
    split_ifs with hget
    · rw [acquireWrite_eq]
      refine Inv.writeLoop ?_ (List.getElem?_set_self (List.getElem?_eq_some_iff.mp hget).1) late
      exact h.set hget _ (by simp [readUnits]) (by simp [waitUnits]) (by simp [writeUnits]) h.exclusive
    · exact h
  | releaseWrite i =>
    rw [RWLockWithTimeout.exec]
    split_ifs with hget
    · refine Inv.notifyAll (h.set hget .idle (by simp [readUnits]) (by simp [waitUnits]) ?_
        fun hactive => by cases hactive)
      have hle : 1 ≤ tally writeUnits s.threads :=
        le_tally writeUnits_nonneg (mem_of_getElem? hget)
      rw [← h.active] at hle
      cases hactive : s.writerActive with
      | false => simp [hactive] at hle
      | true => rfl
    · exact h
  | timeOut i =>
    rw [RWLockWithTimeout.exec]
    split
    · rename_i hget
      exact h.set hget _ (by simp [readUnits]) (by simp [waitUnits]) (by simp [writeUnits]) h.exclusive
    · rename_i hget
      exact h.set hget _ (by simp [readUnits]) (by simp [waitUnits]) (by simp [writeUnits]) h.exclusive
    · exact h
  | resume i late =>
    rw [RWLockWithTimeout.exec]
    split
    · rename_i timed hget
      exact h.readLoop hget (.inr ⟨timed, rfl⟩) timed late
    · rename_i timed hget
      exact h.writeLoop hget late
    · exact h

theorem Inv.waiting_pos {timed : Bool} (h : s.Inv) (hget : s.threads[i]? = some (.writeWoken timed)) :
    0 < s.writersWaiting := by
  have hle : 1 ≤ tally waitUnits s.threads :=
    le_tally waitUnits_nonneg (mem_of_getElem? hget)
  rw [h.waiting]
  exact hle

theorem awake_exec_iff (h : s.Inv) (hawake : s.Awake) (event : RWEvent) :
    (s.exec event).Awake ↔ ¬ s.Strands event := by
  cases event with
  | acquireRead i timed late =>
    refine iff_of_true ?_ id
    rw [RWLockWithTimeout.exec]
    split_ifs
    · exact hawake.readLoop i timed late
    · exact hawake
  | releaseRead i =>
    refine iff_of_true ?_ id
    rw [RWLockWithTimeout.exec]
    split_ifs
    · rw [releaseRead]
      split_ifs
      · exact fun hasleep => absurd hasleep (not_readerAsleep_notifyAll _)
      · exact fun hasleep => hawake (readerAsleep_of_set (s := { s with readers := s.readers - 1 })
          (fun _ heq => by cases heq) hasleep)
    · exact hawake
  | acquireWrite i timed late =>
    refine iff_of_true ?_ id
    rw [RWLockWithTimeout.exec]
    split_ifs with hget
    · rw [acquireWrite_eq]
      have hlt := (List.getElem?_eq_some_iff.mp hget).1
      have hle : 0 ≤ s.writersWaiting := by
        rw [h.waiting]
        exact tally_nonneg waitUnits_nonneg _
      have hsleep : (RWLockWithTimeout.set { s with writersWaiting := s.writersWaiting + 1 } i
          (.writeWoken timed)).ReaderAsleep → s.ReaderAsleep :=
        readerAsleep_of_set (s := { s with writersWaiting := s.writersWaiting + 1 })
          fun _ heq => by cases heq
      refine (awake_writeLoop ?_ (getElem?_set_self hlt)).mpr ?_
      · exact Int.lt_add_one_of_le hle
      · rintro ⟨_, _, hidle, hone, hreader⟩
        change s.writersWaiting + 1 = 1 at hone
        change s.writerActive = false at hidle
        have hreason := hawake (hsleep hreader)
        rw [hidle] at hreason
        rcases hreason with hactive | hpos
        · cases hactive
        · omega
    · exact hawake
  | releaseWrite i =>
    refine iff_of_true ?_ id
    rw [RWLockWithTimeout.exec]
    split_ifs
    · exact fun hasleep => absurd hasleep (not_readerAsleep_notifyAll _)
    · exact hawake
  | timeOut i =>
    refine iff_of_true ?_ id
    rw [RWLockWithTimeout.exec]
    split
    · exact fun hasleep => hawake (readerAsleep_of_set (fun _ heq => by cases heq) hasleep)
    · exact fun hasleep => hawake (readerAsleep_of_set (fun _ heq => by cases heq) hasleep)
    · exact hawake
  | resume i late =>
    rw [RWLockWithTimeout.exec, Strands]
    split
    · rename_i timed hget
      exact iff_of_true (hawake.readLoop i timed late) fun hall => by
        rw [hget] at hall
        cases hall.2.1
    · rename_i timed hget
      rw [awake_writeLoop (h.waiting_pos hget) hget, hget]
      cases timed <;> simp
    · rename_i hread hwrite
      exact iff_of_true hawake fun hall => hwrite true hall.2.1

theorem leavesAlone_readLoop (hlt : i < s.threads.length) (timed late : Bool)
    (hfree : ∀ thread, (s.readLoop i timed late).threads[i]? = some thread → thread.holds = false) :
    (s.readLoop i timed late).readers = s.readers ∧
      (s.readLoop i timed late).writerActive = s.writerActive := by
  rw [readLoop] at hfree ⊢
  split_ifs at hfree ⊢
  · exact ⟨rfl, rfl⟩
  · exact ⟨rfl, rfl⟩
  · exact absurd (hfree .reading (getElem?_set_self hlt)) (by decide)

theorem leavesAlone_writeLoop (hlt : i < s.threads.length) (timed late : Bool)
    (hfree : ∀ thread, (s.writeLoop i timed late).threads[i]? = some thread →
      thread.holds = false) :
    (s.writeLoop i timed late).readers = s.readers ∧
      (s.writeLoop i timed late).writerActive = s.writerActive := by
  rw [writeLoop] at hfree ⊢
  split_ifs at hfree ⊢
  · exact ⟨rfl, rfl⟩
  · exact ⟨rfl, rfl⟩
  · exact absurd (hfree .writing (getElem?_set_self hlt)) (by decide)

theorem leavesAlone (s : RWLockWithTimeout) (event : RWEvent) : s.LeavesAlone event := by
  intro i hi thread hget hfree
  have hone : ∀ other, (s.exec event).threads[i]? = some other → other.holds = false := by
    intro other hother
    rw [hget] at hother
    cases hother
    exact hfree
  cases event with
  | acquireRead j timed late =>
    cases hi
    rw [RWLockWithTimeout.exec] at hone ⊢
    split_ifs at hone ⊢ with hidle
    · exact leavesAlone_readLoop (List.getElem?_eq_some_iff.mp hidle).1 timed late hone
    · exact ⟨rfl, rfl⟩
  | acquireWrite j timed late =>
    cases hi
    rw [RWLockWithTimeout.exec] at hone ⊢
    split_ifs at hone ⊢ with hidle
    · exact leavesAlone_writeLoop (s := { s with writersWaiting := s.writersWaiting + 1 })
        (List.getElem?_eq_some_iff.mp hidle).1 timed late hone
    · exact ⟨rfl, rfl⟩
  | resume j late =>
    cases hi
    rw [RWLockWithTimeout.exec] at hone ⊢
    split at hone <;> rename_i hwoken
    · exact leavesAlone_readLoop (List.getElem?_eq_some_iff.mp hwoken).1 _ late hone
    · exact leavesAlone_writeLoop (List.getElem?_eq_some_iff.mp hwoken).1 _ late hone
    · exact ⟨rfl, rfl⟩
  | releaseRead j => cases hi
  | releaseWrite j => cases hi
  | timeOut j => cases hi

theorem Inv.excludes (h : s.Inv) {i j : ℕ} {thread : RWThread} (hne : i ≠ j)
    (hi : s.threads[i]? = some .writing) (hj : s.threads[j]? = some thread) :
    thread.holds = false := by
  have hset := tally_set writeUnits hi .idle
  have hmem : thread ∈ s.threads.set i .idle :=
    mem_of_getElem? ((getElem?_set_ne hne).trans hj)
  have hwriter := le_tally writeUnits_nonneg hmem
  have hactive : s.writerActive = true := by
    have hle : 1 ≤ tally writeUnits s.threads :=
      le_tally writeUnits_nonneg (mem_of_getElem? hi)
    rw [← h.active] at hle
    cases hactive : s.writerActive with
    | false => simp [hactive] at hle
    | true => rfl
  have hreader := le_tally readUnits_nonneg
    (mem_of_getElem? hj)
  rw [← h.readers, h.exclusive hactive] at hreader
  rw [hset, ← h.active, hactive] at hwriter
  cases thread with
  | reading => exact absurd hreader (by decide)
  | writing => exact absurd hwriter (by decide)
  | _ => rfl

theorem excludes_run (numThreads : ℕ) (events : List RWEvent) :
    let s := final exec (start numThreads) events
    (∀ (i j : ℕ) (thread : RWThread), i ≠ j → s.threads[i]? = some .writing →
      s.threads[j]? = some thread → thread.holds = false) ∧
      s.readers = tally readUnits s.threads ∧ s.writersWaiting = tally waitUnits s.threads ∧
        (s.writerActive = true → s.readers = 0) := by
  have hinv : (final exec (start numThreads) events).Inv :=
    invariant_final (fun _ event h _ => h.exec event) (inv_start numThreads)
      (along_of_forall (fun _ _ => trivial) _ events)
  exact ⟨fun _ _ _ hne hi hj => hinv.excludes hne hi hj, hinv.readers, hinv.waiting, hinv.exclusive⟩

theorem correct_iff (h : s.Inv) : s.Correct ↔ s.Awake :=
  ⟨Correct.awake, fun hawake => ⟨fun _ _ _ hne hi hj => h.excludes hne hi hj, h.waiting, hawake⟩⟩

theorem awake_start (numThreads : ℕ) : (start numThreads).Awake := by
  rintro ⟨timed, hmem⟩
  cases eq_of_mem_replicate hmem

theorem correct_iff_not_strands (numThreads : ℕ) (events : List RWEvent) :
    (∀ pre rest, events = pre ++ rest → (final exec (start numThreads) pre).Correct) ∧
        Along exec LeavesAlone (start numThreads) events ↔
      Along exec (fun s event => ¬ s.Strands event) (start numThreads) events := by
  have hinv := inv_start numThreads
  rw [and_iff_left (along_of_forall leavesAlone _ _), forall_prefix_iff (I := Correct),
    correct_iff hinv, and_iff_right (awake_start numThreads)]
  refine along_iff_along (I := fun s => s.Inv ∧ s.Awake) (Q := fun _ _ => True) ?_ ?_
    ⟨hinv, awake_start numThreads⟩ (along_of_forall (fun _ _ => trivial) _ _)
  · intro s event hs _ hstrands
    exact ⟨hs.1.exec event, (awake_exec_iff hs.1 hs.2 event).mpr hstrands⟩
  · intro s event hs _
    rw [correct_iff (hs.1.exec event), awake_exec_iff hs.1 hs.2]

def stranded : List RWEvent :=
  [.acquireRead 0 false false, .acquireWrite 1 true false, .acquireRead 2 false false, .timeOut 1,
    .resume 1 true]

theorem not_correct_stranded : ¬ ∀ (numThreads : ℕ) (events : List RWEvent),
    (∀ pre rest, events = pre ++ rest → (final exec (start numThreads) pre).Correct) ∧
      Along exec LeavesAlone (start numThreads) events := by
  intro h
  have hawake := ((h 3 stranded).1 stranded [] rfl).awake ⟨false, by decide⟩
  exact absurd hawake (by decide)

end RWLockWithTimeout

end LMCache
