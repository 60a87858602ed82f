import LMCache.LookupClient.AsyncLookupClient

namespace LMCache

open Execution List LMCacheAsyncLookupClient Option Dict

namespace LookupRun

variable {I : Type} [DecidableEq I] {config : AsyncLookupConfig} {worldSize : ℕ}
  {run run' : LookupRun I}

theorem Traffic.congr (h : Traffic worldSize run)
    (hqueues : ∀ worker lookupId gen, (run'.queues worker).count (.request lookupId gen) =
      (run.queues worker).count (.request lookupId gen))
    (hpending : run'.pending = run.pending) (hresponses : run'.responses = run.responses)
    (hprocessed : run'.processed = run.processed) (hlatest : run'.latest = run.latest)
    (hstarted : run'.started = run.started) : Traffic worldSize run' := by
  refine ⟨fun worker lookupId gen hmem => ?_, ?_, ?_, ?_, ?_, fun request hcurrent => ?_⟩
  · rw [← count_pos_iff, hqueues, count_pos_iff] at hmem
    exact hlatest ▸ h.queued worker lookupId gen hmem
  · rw [hpending, hlatest]
    exact h.pending
  · rw [hresponses, hlatest]
    exact h.responses
  · rw [hprocessed, hstarted]
    exact h.processed
  · rw [hlatest, hstarted]
    exact h.bounded
  · rw [hlatest] at hcurrent
    rw [tally, hqueues, hpending, hresponses, hprocessed]
    exact h.once request hcurrent

theorem Collected.congr (h : Collected worldSize run)
    (hcollected : run'.client.resForEachWorker = run.client.resForEachWorker)
    (hstatus : ∀ lookupId n, run'.client.reqsStatus.get? lookupId = some (some n) →
      run.client.reqsStatus.get? lookupId = some (some n))
    (hprocessed : run'.processed = run.processed) (hlatest : run'.latest = run.latest) :
    Collected worldSize run' := by
  refine ⟨fun lookupId => ?_, fun lookupId n hget => ?_⟩
  · simp only [hcollected, hlatest, answersTo, hprocessed]
    exact h.partialResults lookupId
  · simp only [hlatest, answersTo, hprocessed]
    exact h.status lookupId n (hstatus lookupId n hget)

theorem InOrder.congr (h : InOrder run) (hhandled : run'.handled = run.handled)
    (hqueues : run'.queues = run.queues) (hlatest : run'.latest = run.latest)
    (habortedFor : run'.abortedFor = run.abortedFor)
    (hsub : run'.client.abortedLookups ∪ run'.cleaned ⊆ run.client.abortedLookups ∪ run.cleaned) :
    InOrder run' := by
  refine ⟨fun worker => ?_, fun worker lookupId gen hmem => ?_, fun lookupId hmem => ?_⟩
  · rw [hhandled, hqueues]
    exact h.ordered worker
  · rw [hhandled, hqueues] at hmem
    rw [latestOf, hlatest]
    exact h.known worker lookupId gen hmem
  · rw [habortedFor, latestOf, hlatest]
    exact h.aborted lookupId (hsub hmem)

theorem asked_of_ne (h : ∀ lookupId, run'.pc ≠ .asked lookupId) : Asked run' :=
  fun lookupId hpc => absurd hpc (h lookupId)

theorem tidy_start : Tidy worldSize (start : LookupRun I) where
  traffic := ⟨fun _ _ _ hmem => absurd hmem not_mem_nil,
    fun _ hmem => absurd hmem not_mem_nil, fun _ hmem => absurd hmem not_mem_nil,
    fun _ hmem => absurd hmem not_mem_nil, fun _ _ hget => (by cases hget),
    fun _ hcurrent => (by cases hcurrent.latest)⟩
  collected := ⟨fun _ => rfl, fun _ _ hget => (by cases hget)⟩
  inOrder := ⟨fun _ => List.Pairwise.nil, fun _ _ _ hmem => absurd hmem not_mem_nil,
    fun _ hmem => absurd hmem (Finset.notMem_empty _)⟩
  asked := fun _ hpc => by cases hpc

section Scheduler

theorem Tidy.lookupCache (h : Tidy config.worldSize run) (lookupId : I) :
    Tidy config.worldSize (exec config run (.lookupCache lookupId)) := by
  simp only [exec]
  cases hpc : run.pc with
  | idle =>
    refine ⟨h.traffic.congr (fun _ _ _ => rfl) rfl rfl rfl rfl rfl,
      h.collected.congr rfl (fun _ _ => id) rfl rfl, h.inOrder.congr rfl rfl rfl rfl ?_,
      asked_of_ne fun _ heq => by cases heq⟩
    intro abortedId hmem
    refine Finset.mem_union_left _ ?_
    rcases Finset.mem_union.mp hmem with hleft | hfinished
    · exact (Finset.mem_sdiff.mp hleft).1
    · exact (Finset.mem_filter.mp hfinished).1
  | cleaning finished id => exact h
  | clearing abortedId finished id => exact h
  | asked id => exact h

theorem count_push_cleanup (run : LookupRun I) (abortedId lookupId : I) (tag worker gen : ℕ) :
    ((run.push worldSize (.cleanup abortedId tag)).queues worker).count (.request lookupId gen) =
      (run.queues worker).count (.request lookupId gen) := by
  simp only [push]
  split_ifs
  · rw [count_append, count_singleton]
    rfl
  · rfl

theorem InOrder.push (h : InOrder run) {msg : WorkerMsg I}
    (hlast : ∀ worker, ∀ m ∈ run.handled worker ++ run.queues worker, NotAhead m msg)
    (hknown : ∀ lookupId gen, msg = .request lookupId gen → gen ≤ run.latestOf lookupId) :
    InOrder (run.push worldSize msg) := by
  have hqueues : ∀ worker, (run.push worldSize msg).queues worker = run.queues worker ∨
      (run.push worldSize msg).queues worker = run.queues worker ++ [msg] := by
    intro worker
    simp only [LookupRun.push]
    split_ifs
    · exact .inr rfl
    · exact .inl rfl
  refine ⟨fun worker => ?_, fun worker lookupId gen hmem => ?_, h.aborted⟩
  · rcases hqueues worker with heq | heq
    · rw [heq]
      exact h.ordered worker
    · rw [heq, ← append_assoc, pairwise_append]
      refine ⟨h.ordered worker, pairwise_singleton _ _, fun m hm m' hm' => ?_⟩
      rw [mem_singleton.mp hm']
      exact hlast worker m hm
  · rcases hqueues worker with heq | heq
    · rw [heq] at hmem
      exact h.known worker lookupId gen hmem
    · rw [heq, ← append_assoc] at hmem
      rcases mem_append.mp hmem with hold | hnew
      · exact h.known worker lookupId gen hold
      · exact hknown lookupId gen (mem_singleton.mp hnew).symm

theorem Tidy.sendCleanup (h : Tidy config.worldSize run) (abortedId : I) :
    Tidy config.worldSize (exec config run (.sendCleanup abortedId)) := by
  simp only [exec]
  cases hpc : run.pc with
  | cleaning finished lookupId =>
    dsimp only
    split_ifs with hmem
    · have hcleaned : run.cleaned = finished := by simp only [cleaned, hpc]
      have htag : run.abortedFor.get? abortedId = some (run.latestOf abortedId) :=
        h.inOrder.aborted abortedId (Finset.mem_union_right _ (hcleaned ▸ hmem))
      have hpushed : InOrder (run.sendCleanupMessage config.worldSize abortedId) := by
        refine h.inOrder.push (fun worker m hm id gen later hreq hclean => ?_)
          fun id gen heq => by cases heq
        obtain ⟨rfl, rfl⟩ := WorkerMsg.cleanup.inj hclean
        rw [htag, getD_some]
        exact h.inOrder.known worker abortedId later (hreq ▸ hm)
      refine ⟨h.traffic.congr (fun _ _ _ => count_push_cleanup run _ _ _ _ _) rfl rfl rfl rfl rfl,
        h.collected.congr rfl (fun _ _ => id) rfl rfl, hpushed.congr rfl rfl rfl rfl ?_,
        asked_of_ne fun _ heq => by cases heq⟩
      refine Finset.union_subset_union_right ?_
      change finished.erase abortedId ⊆ run.cleaned
      rw [hcleaned]
      exact Finset.erase_subset _ _
    · exact h
  | idle => exact h
  | clearing id finished lookupId => exact h
  | asked id => exact h

variable {client : LMCacheAsyncLookupClient I}

theorem status_clear {clearedId lookupId : I} {status : Option ℕ}
    (h : (client.clearLookupStatus clearedId).reqsStatus.get? lookupId = some status) :
    client.reqsStatus.get? lookupId = some status := by
  simp only [clearLookupStatus, get?_erase] at h
  split_ifs at h
  exact h

theorem Tidy.clearAborted (h : Tidy config.worldSize run) :
    Tidy config.worldSize (exec config run .clearAborted) := by
  simp only [exec]
  cases hpc : run.pc with
  | clearing abortedId finished lookupId =>
    have hcleaned : run.cleaned = finished := by simp only [cleaned, hpc]
    refine ⟨h.traffic.congr (fun _ _ _ => rfl) rfl rfl rfl rfl rfl,
      h.collected.congr rfl (fun _ _ => status_clear) rfl rfl,
      h.inOrder.congr rfl rfl rfl rfl ?_, asked_of_ne fun _ heq => by cases heq⟩
    rw [hcleaned]
    exact Finset.Subset.refl _
  | idle => exact h
  | cleaning finished lookupId => exact h
  | asked id => exact h

theorem Tidy.clearLookupStatus (h : Tidy config.worldSize run) (lookupId : I) :
    Tidy config.worldSize (exec config run (.clearLookupStatus lookupId)) := by
  simp only [exec]
  cases hpc : run.pc with
  | idle =>
    exact ⟨h.traffic.congr (fun _ _ _ => rfl) rfl rfl rfl rfl rfl,
      h.collected.congr rfl (fun _ _ => status_clear) rfl rfl,
      h.inOrder.congr rfl rfl rfl rfl (Finset.union_subset_union_right (Finset.empty_subset _)),
      asked_of_ne fun _ heq => by cases heq⟩
  | cleaning finished lookupId => exact h
  | clearing id finished lookupId => exact h
  | asked id => exact h

variable {lookupId : I}

theorem InOrder.abort (h : InOrder run) {pc : SchedulerPc I}
    (hclient : client.abortedLookups = insert lookupId run.client.abortedLookups)
    (hcleaned : ({ run with client := client, pc := pc } : LookupRun I).cleaned ⊆ run.cleaned) :
    InOrder (({ run with client := client, pc := pc } : LookupRun I).abort lookupId) := by
  refine ⟨h.ordered, h.known, fun abortedId hmem => ?_⟩
  change (run.abortedFor.set lookupId (run.latestOf lookupId)).get? abortedId =
    some (run.latestOf abortedId)
  rw [get?_set]
  split_ifs with heq
  · rw [heq]
  · refine h.aborted abortedId ?_
    rcases Finset.mem_union.mp hmem with hab | hcl
    · rw [show (({ run with client := client, pc := pc } : LookupRun I).abort
        lookupId).client.abortedLookups = _ from hclient] at hab
      exact Finset.mem_union_left _ ((Finset.mem_insert.mp hab).resolve_left (Ne.symm heq))
    · exact Finset.mem_union_right _ (hcleaned hcl)

theorem Tidy.cancelLookup (h : Tidy config.worldSize run) (lookupId : I) :
    Tidy config.worldSize (exec config run (.cancelLookup lookupId)) := by
  simp only [exec]
  cases hpc : run.pc with
  | idle =>
    exact ⟨h.traffic.congr (fun _ _ _ => rfl) rfl rfl rfl rfl rfl,
      h.collected.congr rfl (fun _ _ => id) rfl rfl,
      h.inOrder.abort rfl (Finset.empty_subset _), asked_of_ne fun _ heq => by cases heq⟩
  | cleaning finished lookupId => exact h
  | clearing id finished lookupId => exact h
  | asked id => exact h

theorem Tidy.check_notFound (h : Tidy config.worldSize run) (now : ℕ)
    (hstatus : run.client.reqsStatus.get? lookupId = none)
    (hquiet : ¬ run.Outstanding lookupId ∧ lookupId ∉ run.client.abortedLookups) :
    Tidy config.worldSize (run.check config now lookupId) := by
  have hcheck : run.check config now lookupId = { run with
      client := { run.client with
        reqsStatus := run.client.reqsStatus.set lookupId none
        firstLookupTime := run.client.firstLookupTime.set lookupId now }
      pc := .asked lookupId } := by
    simp [check, answered, lookupCacheLocked, hstatus]
  rw [hcheck]
  refine ⟨h.traffic.congr (fun _ _ _ => rfl) rfl rfl rfl rfl rfl,
    h.collected.congr rfl (fun id n hget => ?_) rfl rfl, h.inOrder.congr rfl rfl rfl rfl ?_,
    fun id heq => ?_⟩
  · dsimp only at hget
    rw [get?_set] at hget
    split_ifs at hget
    · cases hget
    · exact hget
  · exact Finset.union_subset_union_right (Finset.empty_subset _)
  · obtain rfl := SchedulerPc.asked.inj heq
    exact ⟨hquiet.1, hquiet.2, get?_set_self _ _ _⟩

theorem Tidy.check_same (h : Tidy config.worldSize run) :
    Tidy config.worldSize { run with pc := .idle } :=
  ⟨h.traffic.congr (fun _ _ _ => rfl) rfl rfl rfl rfl rfl,
    h.collected.congr rfl (fun _ _ => id) rfl rfl,
    h.inOrder.congr rfl rfl rfl rfl (Finset.union_subset_union_right (Finset.empty_subset _)),
    asked_of_ne fun _ heq => by cases heq⟩

theorem Tidy.check (h : Tidy config.worldSize run) (now : ℕ)
    (hquiet : run.client.reqsStatus.get? lookupId = none →
      ¬ run.Outstanding lookupId ∧ lookupId ∉ run.client.abortedLookups) :
    Tidy config.worldSize (run.check config now lookupId) := by
  cases hstatus : run.client.reqsStatus.get? lookupId with
  | none => exact h.check_notFound now hstatus (hquiet hstatus)
  | some status =>
    cases status with
    | some n =>
      have hcheck : run.check config now lookupId = { run with pc := .idle } := by
        simp [LookupRun.check, answered, lookupCacheLocked, hstatus]
      exact hcheck ▸ h.check_same
    | none =>
      cases hfirst : run.client.firstLookupTime.get? lookupId with
      | none =>
        have hcheck : run.check config now lookupId = { run with pc := .idle } := by
          simp [LookupRun.check, answered, lookupCacheLocked, hstatus, hfirst]
        exact hcheck ▸ h.check_same
      | some first =>
        by_cases hlate : config.lookupTimeoutMs < now - first
        · have hcheck : run.check config now lookupId =
              ({ run with
                client := { run.client.cancelLookup lookupId with
                  firstLookupTime := run.client.firstLookupTime.erase lookupId }
                pc := .idle } : LookupRun I).abort lookupId := by
            simp [LookupRun.check, answered, lookupCacheLocked, hstatus, hfirst, hlate]
          rw [hcheck]
          exact ⟨h.traffic.congr (fun _ _ _ => rfl) rfl rfl rfl rfl rfl,
            h.collected.congr rfl (fun _ _ => id) rfl rfl,
            h.inOrder.abort rfl (Finset.empty_subset _), asked_of_ne fun _ heq => by cases heq⟩
        · have hcheck : run.check config now lookupId = { run with pc := .idle } := by
            simp [LookupRun.check, answered, lookupCacheLocked, hstatus, hfirst, hlate]
          exact hcheck ▸ h.check_same

theorem Tidy.lookupCacheLocked (h : Tidy config.worldSize run) (now : ℕ)
    (horderly : run.Orderly (.lookupCacheLocked now)) :
    Tidy config.worldSize (exec config run (.lookupCacheLocked now)) := by
  simp only [exec]
  cases hpc : run.pc with
  | cleaning finished lookupId =>
    dsimp only
    split_ifs with hempty
    · rw [hempty] at hpc
      exact h.check now (horderly lookupId hpc).1
    · exact h
  | idle => exact h
  | clearing id finished lookupId => exact h
  | asked id => exact h

variable {request : LookupRequest I}

theorem current_set_iff {latest : Dict I ℕ} {gen : ℕ} (hne : request.lookupId ≠ lookupId) :
    Current worldSize (latest.set lookupId gen) request ↔ Current worldSize latest request := by
  have hget : (latest.set lookupId gen).get? request.lookupId = latest.get? request.lookupId :=
    get?_set_ne _ _ hne.symm
  constructor
  · rintro ⟨hinside, hlatest⟩
    exact ⟨hinside, hget.symm.trans hlatest⟩
  · rintro ⟨hinside, hlatest⟩
    exact ⟨hinside, hget.trans hlatest⟩

theorem Traffic.tally_eq_zero (h : Traffic worldSize run)
    (hquiet : ¬ run.Outstanding request.lookupId) (hgen : run.started < request.gen) :
    run.tally request = 0 := by
  have hqueue : (run.queues request.worker).count (.request request.lookupId request.gen) = 0 :=
    count_eq_zero_of_not_mem fun hmem => hquiet (.inl ⟨_, _, hmem⟩)
  have hpending : run.pending.count request = 0 :=
    count_eq_zero_of_not_mem fun hmem => hquiet (.inr (.inl ⟨request, hmem, rfl⟩))
  have hresponses : (run.responses.map LookupResponse.request).count request = 0 := by
    refine count_eq_zero_of_not_mem fun hmem => ?_
    obtain ⟨response, hresponse, hr⟩ := mem_map.mp hmem
    exact hquiet (.inr (.inr ⟨response, hresponse, hr ▸ rfl⟩))
  have hprocessed : (run.processed.map LookupResponse.request).count request = 0 := by
    refine count_eq_zero_of_not_mem fun hmem => ?_
    obtain ⟨response, hresponse, rfl⟩ := mem_map.mp hmem
    exact absurd (h.processed response hresponse).2 (Nat.not_le.mpr hgen)
  rw [tally, hqueue, hpending, hresponses, hprocessed]

theorem Traffic.sendLookup (h : Traffic worldSize run) (hquiet : ¬ run.Outstanding lookupId) :
    Traffic worldSize (run.sendLookup worldSize lookupId) := by
  have hqueues : ∀ worker, ((run.sendLookup worldSize lookupId).queues worker) =
      if worker < worldSize then run.queues worker ++ [.request lookupId (run.started + 1)]
        else run.queues worker := fun worker => rfl
  refine ⟨fun worker id gen hmem => ?_, fun request hmem => ?_, fun response hmem => ?_,
    fun response hmem => ?_, fun id gen hget => ?_, fun request hcurrent => ?_⟩
  · have hold : WorkerMsg.request id gen ∈ run.queues worker →
        Current worldSize (run.sendLookup worldSize lookupId).latest ⟨worker, id, gen⟩ := by
      intro hin
      have hne : id ≠ lookupId := fun heq => hquiet (.inl ⟨worker, gen, heq ▸ hin⟩)
      exact (current_set_iff hne).mpr (h.queued worker id gen hin)
    rw [hqueues] at hmem
    split_ifs at hmem with hlt
    · rcases mem_append.mp hmem with hin | hnew
      · exact hold hin
      · obtain ⟨rfl, rfl⟩ := WorkerMsg.request.inj (mem_singleton.mp hnew)
        exact ⟨hlt, get?_set_self _ _ _⟩
    · exact hold hmem
  · exact (current_set_iff fun heq => hquiet (.inr (.inl ⟨request, hmem, heq⟩))).mpr
      (h.pending request hmem)
  · exact (current_set_iff fun heq => hquiet (.inr (.inr ⟨response, hmem, heq⟩))).mpr
      (h.responses response hmem)
  · exact ⟨(h.processed response hmem).1, Nat.le_succ_of_le (h.processed response hmem).2⟩
  · change (run.latest.set lookupId (run.started + 1)).get? id = some gen at hget
    rw [get?_set] at hget
    split_ifs at hget
    · exact (some.inj hget).ge
    · exact Nat.le_succ_of_le (h.bounded id gen hget)
  · change Current worldSize (run.latest.set lookupId (run.started + 1)) request at hcurrent
    rw [tally, hqueues, if_pos hcurrent.inside, count_append, count_singleton]
    by_cases heq : request.lookupId = lookupId
    · have hgen : request.gen = run.started + 1 := by
        have hget := hcurrent.latest
        rw [heq, get?_set_self] at hget
        exact (some.inj hget).symm
      have hnone := h.tally_eq_zero (heq.symm ▸ hquiet) (hgen ▸ Nat.lt_succ_self _)
      have hnew : (WorkerMsg.request lookupId (run.started + 1) ==
          WorkerMsg.request request.lookupId request.gen) = true := by
        rw [heq, hgen, beq_self_eq_true]
      rw [tally] at hnone
      change _ + _ + run.pending.count request + (run.responses.map LookupResponse.request).count
        request + (run.processed.map LookupResponse.request).count request = 1
      rw [hnew, if_pos rfl]
      omega
    · have hnew : (WorkerMsg.request lookupId (run.started + 1) ==
          WorkerMsg.request request.lookupId request.gen) = false := by
        simp [Ne.symm heq]
      rw [hnew]
      exact h.once request ((current_set_iff heq).mp hcurrent)

theorem Collected.sendLookup (h : Collected worldSize run) (htraffic : Traffic worldSize run)
    (hquiet : ¬ run.Outstanding lookupId)
    (hstatus : run.client.reqsStatus.get? lookupId = some none) :
    Collected worldSize (run.sendLookup worldSize lookupId) := by
  refine ⟨fun id => ?_, fun id n hget => ?_⟩
  · change run.client.resForEachWorker.get? id =
      ((run.latest.set lookupId (run.started + 1)).get? id).bind fun gen =>
        LookupRun.collected worldSize (run.answersTo id gen)
    rw [h.partialResults id, get?_set]
    split_ifs with heq
    · subst heq
      have hnone : run.answersTo lookupId (run.started + 1) = [] := by
        refine filter_eq_nil_iff.mpr fun response hmem hmatch => ?_
        have hle := (htraffic.processed response hmem).2
        have hgen := (of_decide_eq_true hmatch).2
        omega
      rw [bind_some, hnone, LookupRun.collected, if_pos (.inl rfl)]
      cases hlatest : run.latest.get? lookupId with
      | none => rfl
      | some gen =>
        rw [bind_some, LookupRun.collected,
          if_pos (.inr (htraffic.answersTo_all hlatest hquiet))]
    · rfl
  · have hne : lookupId ≠ id := fun heq => by
      have hsame : run.client.reqsStatus.get? id = some (some n) := hget
      rw [← heq, hstatus] at hsame
      cases hsame
    obtain ⟨gen, hlatest, hall⟩ := h.status id n hget
    exact ⟨gen, (get?_set_ne _ _ hne).trans hlatest, hall⟩

theorem InOrder.sendLookup (h : InOrder run) (htraffic : Traffic worldSize run)
    (hclean : lookupId ∉ run.client.abortedLookups) :
    InOrder (run.sendLookup worldSize lookupId) := by
  have hlatest : ∀ id, (run.latest.set lookupId (run.started + 1)).get? id =
      if lookupId = id then some (run.started + 1) else run.latest.get? id := fun id =>
    get?_set _ _ _ _
  have hmono : ∀ id, run.latestOf id ≤ ((run.latest.set lookupId (run.started + 1)).get? id).getD 0
    := by
    intro id
    rw [hlatest, latestOf]
    split_ifs with heq
    · cases hget : run.latest.get? id with
      | none => exact Nat.zero_le _
      | some gen => exact Nat.le_succ_of_le (htraffic.bounded id gen hget)
    · exact le_rfl
  have hstarted : InOrder ({ run with
      pc := .idle
      started := run.started + 1
      latest := run.latest.set lookupId (run.started + 1) } : LookupRun I) := by
    refine ⟨h.ordered, fun worker id gen hmem => (h.known worker id gen hmem).trans (hmono id),
      fun id hmem => ?_⟩
    have hin : id ∈ run.client.abortedLookups := by
      rcases Finset.mem_union.mp hmem with hab | hcl
      · exact hab
      · exact absurd hcl (Finset.notMem_empty id)
    have hne : ¬ lookupId = id := fun heq => hclean (heq ▸ hin)
    rw [latestOf]
    dsimp only
    rw [hlatest, if_neg hne]
    exact h.aborted id (Finset.mem_union_left _ hin)
  refine hstarted.push (fun worker m hm id gen later hreq hclean' => by cases hclean')
    fun id gen heq => ?_
  obtain ⟨rfl, rfl⟩ := WorkerMsg.request.inj heq
  rw [latestOf]
  dsimp only
  rw [get?_set_self]
  exact le_rfl

theorem Tidy.lookup (h : Tidy config.worldSize run) :
    Tidy config.worldSize (exec config run .lookup) := by
  simp only [exec]
  cases hpc : run.pc with
  | asked lookupId =>
    obtain ⟨hquiet, hclean, hstatus⟩ := h.asked lookupId hpc
    exact ⟨h.traffic.sendLookup hquiet, h.collected.sendLookup h.traffic hquiet hstatus,
      h.inOrder.sendLookup h.traffic hclean, asked_of_ne fun _ heq => by cases heq⟩
  | idle => exact h
  | cleaning finished lookupId => exact h
  | clearing id finished lookupId => exact h

end Scheduler

section Network

theorem Asked.congr (h : Asked run) (hpc : run'.pc = run.pc)
    (hsub : ∀ lookupId, run'.Outstanding lookupId → run.Outstanding lookupId)
    (haborted : run'.client.abortedLookups = run.client.abortedLookups)
    (hstatus : ∀ lookupId, ¬ run.Outstanding lookupId →
      run'.client.reqsStatus.get? lookupId = run.client.reqsStatus.get? lookupId) : Asked run' := by
  intro lookupId heq
  obtain ⟨hquiet, hclean, hongoing⟩ := h lookupId (hpc ▸ heq)
  exact ⟨fun hout => hquiet (hsub lookupId hout), haborted ▸ hclean,
    (hstatus lookupId hquiet).trans hongoing⟩

variable {rest : List (WorkerMsg I)}

theorem InOrder.takeMsg (h : InOrder run) {worker : ℕ} {msg : WorkerMsg I}
    (hqueue : run.queues worker = msg :: rest) :
    InOrder (run.takeMsg worker msg rest) := by
  have hsame : ∀ w, (run.takeMsg worker msg rest).handled w ++
      (run.takeMsg worker msg rest).queues w = run.handled w ++ run.queues w := by
    intro w
    simp only [LookupRun.takeMsg]
    split_ifs with heq
    · rw [heq, hqueue, append_assoc, singleton_append]
    · rfl
  refine ⟨fun w => ?_, fun w lookupId gen hmem => ?_, h.aborted⟩
  · rw [hsame]
    exact h.ordered w
  · rw [hsame] at hmem
    exact h.known w lookupId gen hmem

theorem Traffic.takeCleanup (h : Traffic worldSize run) {worker gen : ℕ} {lookupId : I}
    (hqueue : run.queues worker = .cleanup lookupId gen :: rest) :
    Traffic worldSize (run.takeMsg worker (.cleanup lookupId gen) rest) := by
  refine h.congr (fun w id g => ?_) rfl rfl rfl rfl rfl
  simp only [LookupRun.takeMsg]
  split_ifs with heq
  · rw [heq, hqueue, count_cons]
    rfl
  · rfl

theorem Traffic.takeRequest (h : Traffic worldSize run) {worker gen : ℕ} {lookupId : I}
    (hqueue : run.queues worker = .request lookupId gen :: rest) :
    Traffic worldSize (run.takeMsg worker (.request lookupId gen) rest) := by
  have hcurrent : Current worldSize run.latest ⟨worker, lookupId, gen⟩ :=
    h.queued worker lookupId gen (hqueue ▸ mem_cons_self)
  refine ⟨fun w id g hmem => ?_, fun request hmem => ?_, h.responses, h.processed, h.bounded,
    fun request hreq => ?_⟩
  · refine h.queued w id g ?_
    change _ ∈ (if w = worker then rest else run.queues w) at hmem
    split_ifs at hmem with heq
    · rw [heq, hqueue]
      exact mem_cons_of_mem _ hmem
    · exact hmem
  · rcases mem_append.mp hmem with hold | hnew
    · exact h.pending request hold
    · obtain rfl := mem_singleton.mp hnew
      exact hcurrent
  · rw [← h.once request hreq, tally, tally]
    change (if request.worker = worker then rest else run.queues request.worker).count _ +
      (run.pending ++ [(⟨worker, lookupId, gen⟩ : LookupRequest I)]).count request +
        (run.responses.map LookupResponse.request).count request +
          (run.processed.map LookupResponse.request).count request = _
    rw [count_append, count_singleton]
    obtain ⟨w, id, g⟩ := request
    dsimp only
    by_cases heq : w = worker
    · rw [if_pos heq, heq, hqueue, count_cons]
      have hmatch : ((⟨worker, lookupId, gen⟩ : LookupRequest I) == ⟨worker, id, g⟩) =
          (WorkerMsg.request lookupId gen == WorkerMsg.request id g) := by
        simp [Bool.beq_eq_decide_eq]
      rw [hmatch]
      omega
    · have hmiss : ((⟨worker, lookupId, gen⟩ : LookupRequest I) == ⟨w, id, g⟩) = false := by
        simp [Ne.symm heq]
      rw [if_neg heq, hmiss]
      rfl

theorem Tidy.receive (h : Tidy config.worldSize run) (worker : ℕ) :
    Tidy config.worldSize (exec config run (.receive worker)) := by
  simp only [exec]
  cases hqueue : run.queues worker with
  | nil => exact h
  | cons msg rest =>
    refine ⟨?_, h.collected.congr rfl (fun _ _ => id) rfl rfl, h.inOrder.takeMsg hqueue,
      h.asked.congr rfl (fun lookupId hout => ?_) rfl fun _ _ => rfl⟩
    · cases msg with
      | request lookupId gen => exact h.traffic.takeRequest hqueue
      | cleanup lookupId gen => exact h.traffic.takeCleanup hqueue
    · rcases hout with ⟨w, gen, hmem⟩ | ⟨request, hmem, hid⟩ | hresponse
      · refine .inl ⟨w, gen, ?_⟩
        change _ ∈ (if w = worker then rest else run.queues w) at hmem
        split_ifs at hmem with heq
        · rw [heq, hqueue]
          exact mem_cons_of_mem _ hmem
        · exact hmem
      · cases msg with
        | cleanup id gen => exact .inr (.inl ⟨request, hmem, hid⟩)
        | request id gen =>
          rcases mem_append.mp hmem with hold | hnew
          · exact .inr (.inl ⟨request, hold, hid⟩)
          · obtain rfl := mem_singleton.mp hnew
            refine .inl ⟨worker, gen, ?_⟩
            rw [hqueue]
            exact hid ▸ mem_cons_self
      · exact .inr (.inr hresponse)

theorem Traffic.answer (h : Traffic worldSize run) {request : LookupRequest I}
    (hmem : request ∈ run.pending) (numHitTokens : ℕ) :
    Traffic worldSize { run with
      pending := run.pending.erase request
      responses := run.responses ++ [⟨request, numHitTokens⟩] } := by
  refine ⟨h.queued, fun r hr => h.pending r (mem_of_mem_erase hr), fun r hr => ?_,
    h.processed, h.bounded, fun r hr => ?_⟩
  · rcases mem_append.mp hr with hold | hnew
    · exact h.responses r hold
    · obtain rfl := mem_singleton.mp hnew
      exact h.pending request hmem
  · rw [← h.once r hr, tally, tally]
    dsimp only
    rw [map_append, count_append, map_singleton, count_singleton]
    by_cases heq : request = r
    · subst heq
      have hpos := count_pos_iff.mpr hmem
      rw [count_erase_self, beq_self_eq_true, if_pos rfl]
      omega
    · rw [count_erase_of_ne (Ne.symm heq), beq_eq_false_iff_ne.mpr heq]
      rfl

theorem Tidy.answer (h : Tidy config.worldSize run) (request : LookupRequest I) (numHitTokens : ℕ) :
    Tidy config.worldSize (exec config run (.answer request numHitTokens)) := by
  simp only [exec]
  split_ifs with hmem
  · refine ⟨h.traffic.answer hmem numHitTokens, h.collected.congr rfl (fun _ _ => id) rfl rfl,
      h.inOrder.congr rfl rfl rfl rfl (Finset.Subset.refl _),
      h.asked.congr rfl (fun lookupId hout => ?_) rfl fun _ _ => rfl⟩
    rcases hout with hqueue | ⟨r, hr, hid⟩ | ⟨r, hr, hid⟩
    · exact .inl hqueue
    · exact .inr (.inl ⟨r, mem_of_mem_erase hr, hid⟩)
    · rcases mem_append.mp hr with hold | hnew
      · exact .inr (.inr ⟨r, hold, hid⟩)
      · obtain rfl := mem_singleton.mp hnew
        exact .inr (.inl ⟨request, hmem, hid⟩)
  · exact h

theorem perm_eraseIdx {α : Type} {xs : List α} {i : ℕ} {x : α} (hget : xs[i]? = some x) :
    xs.Perm (x :: xs.eraseIdx i) := by
  obtain ⟨hlt, rfl⟩ := List.getElem?_eq_some_iff.mp hget
  exact (getElem_cons_eraseIdx_perm hlt).symm

def process (run : LookupRun I) (worldSize index : ℕ) (response : LookupResponse I) : LookupRun I :=
  { run with
    client := run.client.processResponse worldSize response.request.lookupId response.numHitTokens
    responses := run.responses.eraseIdx index
    processed := run.processed ++ [response] }

variable {response : LookupResponse I}

theorem Traffic.process (h : Traffic worldSize run) {index : ℕ}
    (hget : run.responses[index]? = some response) :
    Traffic worldSize (run.process worldSize index response) := by
  have hcurrent := h.responses response (mem_of_getElem? hget)
  have hperm := perm_eraseIdx hget
  refine ⟨h.queued, h.pending, fun r hr => h.responses r (mem_of_mem_eraseIdx hr),
    fun r hr => ?_, h.bounded, fun request hr => ?_⟩
  · rcases mem_append.mp hr with hold | hnew
    · exact h.processed r hold
    · obtain rfl := mem_singleton.mp hnew
      exact ⟨hcurrent.inside, h.bounded _ _ hcurrent.latest⟩
  · have hcount := (hperm.map LookupResponse.request).count_eq request
    rw [map_cons, count_cons] at hcount
    rw [← h.once request hr, tally, tally, hcount]
    simp only [LookupRun.process, map_append, count_append, map_singleton, count_singleton]
    omega

theorem answersTo_process (run : LookupRun I) (index : ℕ) (response : LookupResponse I)
    (lookupId : I) (gen : ℕ) :
    (run.process worldSize index response).answersTo lookupId gen =
      run.answersTo lookupId gen ++
        if response.request.lookupId = lookupId ∧ response.request.gen = gen then [response]
          else [] := by
  rw [answersTo, LookupRun.process, filter_append, filter_singleton]
  exact congrArg (run.answersTo lookupId gen ++ ·) (Bool.cond_decide _ _ _)

theorem Collected.allRes (h : Collected worldSize run)
    (hlatest : run.latest.get? response.request.lookupId = some response.request.gen)
    (hlt : (run.answersTo response.request.lookupId response.request.gen).length < worldSize) :
    (run.client.resForEachWorker.get? response.request.lookupId).getD [] ++
        [response.numHitTokens] =
      (run.answersTo response.request.lookupId response.request.gen ++ [response]).map
        LookupResponse.numHitTokens := by
  rw [h.partialResults, hlatest, bind_some, collected, map_append]
  split_ifs with hnone
  · have hempty := eq_nil_of_length_eq_zero (hnone.resolve_right hlt.ne)
    rw [hempty]
    rfl
  · rfl

theorem Collected.process (h : Collected worldSize run) (htraffic : Traffic worldSize run)
    {index : ℕ} (hget : run.responses[index]? = some response) :
    Collected worldSize (run.process worldSize index response) := by
  have hmem := mem_of_getElem? hget
  have hcurrent := htraffic.responses response hmem
  have howed : (run.processed.map LookupResponse.request).count response.request = 0 := by
    have honce := htraffic.once response.request hcurrent
    have hpos : 0 < (run.responses.map LookupResponse.request).count response.request :=
      count_pos_iff.mpr (mem_map_of_mem hmem)
    rw [tally] at honce
    omega
  have hlt := htraffic.answersTo_lt hcurrent howed
  have hall := h.allRes hcurrent.latest hlt
  have hother : ∀ {id : I} {gen : ℕ}, response.request.lookupId ≠ id →
      (run.process worldSize index response).answersTo id gen = run.answersTo id gen := by
    intro id gen hne
    rw [answersTo_process, if_neg fun heq => hne heq.1, append_nil]
  have hown : (run.process worldSize index response).answersTo response.request.lookupId
      response.request.gen =
        run.answersTo response.request.lookupId response.request.gen ++ [response] := by
    rw [answersTo_process, if_pos ⟨rfl, rfl⟩]
  have hlength : ((run.client.resForEachWorker.get? response.request.lookupId).getD [] ++
      [response.numHitTokens]).length =
        ((run.process worldSize index response).answersTo response.request.lookupId
          response.request.gen).length := by
    rw [hall, hown, length_map]
  refine ⟨fun id => ?_, fun id n hstatus => ?_⟩
  · change (run.client.processResponse worldSize response.request.lookupId
      response.numHitTokens).resForEachWorker.get? id = (run.latest.get? id).bind _
    rw [get?_resForEachWorker_processResponse]
    rcases eq_or_ne response.request.lookupId id with rfl | hne
    · have hsome : (run.process worldSize index response).answersTo response.request.lookupId
          response.request.gen ≠ [] := by
        rw [hown]
        exact append_ne_nil_of_right_ne_nil _ (cons_ne_nil response [])
      rw [if_pos rfl, hcurrent.latest, bind_some, collected, hlength]
      refine if_congr (or_iff_right (mt length_eq_zero_iff.mp hsome)).symm rfl ?_
      rw [hown, hall]
    · rw [if_neg hne, h.partialResults id]
      simp only [hother hne]
  · change (run.client.processResponse worldSize response.request.lookupId
      response.numHitTokens).reqsStatus.get? id = some (some n) at hstatus
    change ∃ gen, run.latest.get? id = some gen ∧ _
    rw [get?_reqsStatus_processResponse] at hstatus
    rcases eq_or_ne response.request.lookupId id with rfl | hne
    · split_ifs at hstatus with hfull
      · rw [some.injEq, some.injEq, hall] at hstatus
        refine ⟨response.request.gen, hcurrent.latest, hlength ▸ hfull.2, ?_⟩
        rw [hown, ← hstatus]
        cases hmin : ((run.answersTo response.request.lookupId response.request.gen ++
            [response]).map LookupResponse.numHitTokens).min? with
        | none => simp at hmin
        | some m => rfl
      · obtain ⟨gen, hgen, hworld, _⟩ := h.status _ n hstatus
        obtain rfl := some.inj (hgen.symm.trans hcurrent.latest)
        exact absurd hworld hlt.ne
    · rw [if_neg fun hboth => hne hboth.1] at hstatus
      obtain ⟨gen, hgen, hresult⟩ := h.status id n hstatus
      refine ⟨gen, hgen, ?_⟩
      rw [hother hne]
      exact hresult

theorem Tidy.processResponse (h : Tidy config.worldSize run) (index : ℕ) :
    Tidy config.worldSize (exec config run (.processResponse index)) := by
  simp only [exec]
  cases hget : run.responses[index]? with
  | none => exact h
  | some response =>
    have hmem := mem_of_getElem? hget
    refine ⟨h.traffic.process hget, h.collected.process h.traffic hget,
      h.inOrder.congr rfl rfl rfl rfl ?_, h.asked.congr rfl (fun lookupId hout => ?_) ?_
        fun lookupId hquiet => ?_⟩
    · rw [abortedLookups_processResponse]
      exact Finset.Subset.refl _
    · rcases hout with hqueue | hpending | ⟨r, hr, hid⟩
      · exact .inl hqueue
      · exact .inr (.inl hpending)
      · exact .inr (.inr ⟨r, mem_of_mem_eraseIdx hr, hid⟩)
    · exact abortedLookups_processResponse
    · have hne : response.request.lookupId ≠ lookupId := fun heq =>
        hquiet (.inr (.inr ⟨response, hmem, heq⟩))
      exact get?_reqsStatus_processResponse.trans (if_neg fun hboth => hne hboth.1)

end Network

theorem Tidy.exec (h : Tidy config.worldSize run) (event : AsyncLookupEvent I)
    (horderly : run.Orderly event) : Tidy config.worldSize (exec config run event) := by
  cases event with
  | lookupCache lookupId => exact h.lookupCache lookupId
  | sendCleanup abortedId => exact h.sendCleanup abortedId
  | clearAborted => exact h.clearAborted
  | lookupCacheLocked now => exact h.lookupCacheLocked now horderly
  | lookup => exact h.lookup
  | clearLookupStatus lookupId => exact h.clearLookupStatus lookupId
  | cancelLookup lookupId => exact h.cancelLookup lookupId
  | receive worker => exact h.receive worker
  | answer request numHitTokens => exact h.answer request numHitTokens
  | processResponse index => exact h.processResponse index

theorem Tidy.promised (h : Tidy config.worldSize run) (event : AsyncLookupEvent I)
    (horderly : run.Orderly event) : run.Promised config event := by
  cases event with
  | lookupCacheLocked now =>
    intro lookupId hpc
    have hpolled := (horderly lookupId hpc).2
    rw [answered, LMCacheAsyncLookupClient.lookupCacheLocked]
    cases hstatus : run.client.reqsStatus.get? lookupId with
    | none => exact ⟨fun heq => (by cases heq), fun n heq => (by cases heq)⟩
    | some status =>
      cases status with
      | none =>
        obtain ⟨first, hfirst⟩ := hpolled hstatus
        simp only [hfirst]
        split_ifs
        · exact ⟨fun heq => (by cases heq), fun n heq => (by cases heq)⟩
        · exact ⟨fun heq => (by cases heq), fun n heq => (by cases heq)⟩
      | some n =>
        refine ⟨fun heq => (by cases heq), fun m heq => ?_⟩
        obtain rfl := LookupResult.hits.inj heq
        obtain ⟨gen, hlatest, hall, hmin⟩ := h.collected.status lookupId n hstatus
        exact ⟨gen, hlatest, h.traffic.answersTo_perm hlatest hall, hmin⟩
  | receive worker =>
    intro lookupId gen hhead later hlater
    obtain ⟨rest, hqueue⟩ := head?_eq_some_iff.mp hhead
    have hordered := h.inOrder.ordered worker
    rw [pairwise_append] at hordered
    exact hordered.2.2 _ hlater _ (hqueue ▸ mem_cons_self) lookupId gen later rfl rfl
  | _ => trivial

theorem promised_of_orderly (config : AsyncLookupConfig) (events : List (AsyncLookupEvent I))
    (horderly : Along (exec config) Orderly start events) :
    Along (exec config) (Promised config) start events :=
  along_of_invariant (I := Tidy config.worldSize) (fun _ event h horder => h.exec event horder)
    (fun _ event h horder => h.promised event horder) tidy_start horderly

def answeredRun : List (AsyncLookupEvent ℕ) :=
  [.lookupCache 5, .lookupCacheLocked 0, .lookup, .receive 1, .receive 0, .answer ⟨1, 5, 1⟩ 512,
    .answer ⟨0, 5, 1⟩ 256, .processResponse 0, .processResponse 0, .lookupCache 5,
    .lookupCacheLocked 20]

def timedOutRun : List (AsyncLookupEvent ℕ) :=
  [.lookupCache 5, .lookupCacheLocked 0, .lookup, .lookupCache 5, .lookupCacheLocked 100,
    .lookupCache 5, .lookupCacheLocked 110]

theorem orderly_answeredRun : Along (exec ⟨2, 50⟩) Orderly start answeredRun := by
  refine ⟨trivial, fun lookupId hpc => ⟨fun _ => ⟨?_, ?_⟩, ?_⟩, trivial, trivial, trivial, trivial,
    trivial, trivial, trivial, trivial, fun lookupId hpc => ⟨?_, ?_⟩, trivial⟩
  · rintro (⟨_, _, h⟩ | ⟨_, h, _⟩ | ⟨_, h, _⟩)
    · exact absurd h not_mem_nil
    · exact absurd h not_mem_nil
    · exact absurd h not_mem_nil
  · exact Finset.notMem_empty lookupId
  · exact fun h => by cases h
  · intro hnone
    obtain ⟨_, rfl⟩ := SchedulerPc.cleaning.inj hpc
    cases hnone
  · intro hongoing
    obtain ⟨_, rfl⟩ := SchedulerPc.cleaning.inj hpc
    cases hongoing

theorem promised_answeredRun : Along (exec ⟨2, 50⟩) (Promised ⟨2, 50⟩) start answeredRun :=
  promised_of_orderly ⟨2, 50⟩ answeredRun orderly_answeredRun

theorem timedOutRun_raises : ¬ Along (exec ⟨2, 50⟩) (Promised ⟨2, 50⟩) start timedOutRun := by
  intro h
  obtain ⟨_, _, _, _, _, _, hpolled, _⟩ := h
  exact absurd rfl (hpolled 5 rfl).1

end LookupRun

end LMCache
