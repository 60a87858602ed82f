import LMCache.Distributed.Commitment

namespace LMCache

open List L1ObjectState L1MemoryManager

structure TimedL1 (K : Type) where
  manager : L1Manager K
  now : ℕ

namespace L1Manager

variable {K R : Type}

def liveObjs (objects : Dict K L1ObjectState) : List MemoryObj :=
  objects.values.map memoryObj

structure Conserved (m : L1Manager K) : Prop where
  live : ∀ obj, obj ∈ liveObjs m.objects ↔
    obj < m.memoryManager.created ∧ obj ∉ m.memoryManager.freed
  distinct : (liveObjs m.objects).Nodup
  freedOnce : m.memoryManager.freed.Nodup

def Accounted (m : L1Manager K) : Prop :=
  (m.memoryManager.freed ++ liveObjs m.objects).Perm (range m.memoryManager.created)

theorem Accounted.conserved {m : L1Manager K} (h : m.Accounted) : Conserved m := by
  have hnodup := h.nodup_iff.mpr nodup_range
  obtain ⟨hfreed, hlive, hapart⟩ := nodup_append.mp hnodup
  refine ⟨fun obj => ?_, hlive, hfreed⟩
  rw [← mem_range, ← h.mem_iff, mem_append]
  constructor
  · intro hobj
    exact ⟨.inr hobj, fun hmem => hapart obj hmem obj hobj rfl⟩
  · rintro ⟨hmem | hmem, hnot⟩
    · exact absurd hmem hnot
    · exact hmem

variable [DecidableEq K] (m m' : L1Manager K)

def leftObjs : List MemoryObj :=
  (m.objects.items.filter (fun item => (m'.objects.get? item.1).isNone)).map
    (fun item => item.2.memoryObj)

def FreesLeft : Prop :=
  ∃ objs, m'.memoryManager.freed = m.memoryManager.freed ++ objs ∧ objs.Perm (leftObjs m m')

def RefusesNew (m : L1Manager K) (now : ℕ) : L1Step K → Prop
  | .reserveWrite granted keys isTemporary mode =>
      ∀ k o, (m.reserveWrite now granted keys isTemporary mode).1.get? k = some (.outOfMemory, o) →
        ∀ k', m.objects.get? k' = none →
          (m.reserveWrite now granted keys isTemporary mode).2.objects.get? k' = none
  | _ => True

def KeepsObj (f : L1ObjectState → Verdict R) : Prop :=
  ∀ e e' r, f e = .keep e' r → e'.memoryObj = e.memoryObj

variable {d : R} {f : L1ObjectState → Verdict R}

theorem liveObjs_set (objects : Dict K L1ObjectState) {k : K} {e e' : L1ObjectState}
    (he : objects.get? k = some e) (hobj : e'.memoryObj = e.memoryObj) :
    (liveObjs (objects.set k e')).Perm (liveObjs objects) := by
  have hperm := (objects.values_set_perm k e').map memoryObj
  rw [he, map_append, map_cons, hobj] at hperm
  exact (perm_cons _).mp hperm

theorem liveObjs_visit (hkeep : KeepsObj f) (p : KeyPass K R) (key : K) :
    ((visit d f p key).needToFree ++ liveObjs (visit d f p key).objects).Perm
      (p.needToFree ++ liveObjs p.objects) := by
  cases he : p.objects.get? key with
  | none => simp only [visit, he]; exact .refl _
  | some e =>
    cases ha : f e with
    | refuse r => simp only [visit, he, ha]; exact .refl _
    | keep e' r =>
      simp only [visit, he, ha]
      exact (liveObjs_set p.objects he (hkeep e e' r ha)).append_left _
    | drop r =>
      simp only [visit, he, ha]
      have hperm := (p.objects.values_erase_perm key).map memoryObj
      rw [he, map_append] at hperm
      rw [append_assoc]
      exact hperm.append_left _

theorem liveObjs_keyPass (hkeep : KeepsObj f) (objects : Dict K L1ObjectState) (keys : List K) :
    ((keyPass d f objects keys).needToFree ++ liveObjs (keyPass d f objects keys).objects).Perm
      (liveObjs objects) := by
  have hfold : ∀ p : KeyPass K R,
      ((keys.foldl (visit d f) p).needToFree ++ liveObjs (keys.foldl (visit d f) p).objects).Perm
        (p.needToFree ++ liveObjs p.objects) := by
    induction keys with
    | nil => exact fun p => .refl _
    | cons key keys ih => exact fun p => (ih _).trans (liveObjs_visit hkeep p key)
  exact hfold ⟨objects, .empty, [], [], []⟩

theorem keyPass_origin (hkeep : KeepsObj f) (objects : Dict K L1ObjectState) (keys : List K) (k : K) :
    ∀ e', (keyPass d f objects keys).objects.get? k = some e' →
      ∃ e, objects.get? k = some e ∧ e.memoryObj = e'.memoryObj := by
  refine (keyPass_spec (d := d) (f := f) (Ψ := fun o => ∀ e', o = some e' →
    ∃ e, objects.get? k = some e ∧ e.memoryObj = e'.memoryObj) (fun o ho e' he' => ?_) keys
    fun e' he' => ⟨e', he', rfl⟩).1
  cases o with
  | none => simp [stepEntry] at he'
  | some e =>
    obtain ⟨e₀, he₀, hobj⟩ := ho e rfl
    cases ha : f e with
    | refuse r =>
      simp only [stepEntry, ha, Option.some.injEq] at he'
      exact ⟨e₀, he₀, hobj.trans (congrArg _ he')⟩
    | keep e'' r =>
      simp only [stepEntry, ha, Option.some.injEq] at he'
      subst he'
      exact ⟨e₀, he₀, hobj.trans (hkeep e e'' r ha).symm⟩
    | drop r => simp [stepEntry, ha] at he'

variable {objs : List MemoryObj}

theorem freesLeft_of_perm {m m' : L1Manager K}
    (hfreed : m'.memoryManager.freed = m.memoryManager.freed ++ objs)
    (hperm : (objs ++ liveObjs m'.objects).Perm (liveObjs m.objects))
    (horigin : ∀ k e', m'.objects.get? k = some e' →
      ∃ e, m.objects.get? k = some e ∧ e.memoryObj = e'.memoryObj) : FreesLeft m m' := by
  refine ⟨objs, hfreed, (perm_append_right_iff _).mp (hperm.trans ?_)⟩
  exact (m.objects.values_left_append_perm m'.objects memoryObj horigin).symm

omit [DecidableEq K] in
theorem Accounted.of_perm {m m' : L1Manager K} (h : m.Accounted)
    (hfreed : m'.memoryManager.freed = m.memoryManager.freed ++ objs)
    (hcreated : m'.memoryManager.created = m.memoryManager.created)
    (hperm : (objs ++ liveObjs m'.objects).Perm (liveObjs m.objects)) : m'.Accounted := by
  rw [Accounted, hfreed, hcreated, append_assoc]
  exact (hperm.append_left _).trans h

theorem keyPass_needToFree_of_keeps (hdrop : ∀ e r, f e ≠ .drop r) (objects : Dict K L1ObjectState)
    (keys : List K) : (keyPass d f objects keys).needToFree = [] := by
  have hfold : ∀ p : KeyPass K R, (keys.foldl (visit d f) p).needToFree = p.needToFree := by
    induction keys with
    | nil => exact fun p => rfl
    | cons key keys ih =>
      intro p
      rw [foldl_cons, ih]
      cases he : p.objects.get? key with
      | none => simp only [visit, he]
      | some e =>
        cases ha : f e with
        | refuse r => simp only [visit, he, ha]
        | keep e' r => simp only [visit, he, ha]
        | drop r => exact absurd ha (hdrop e r)
  exact hfold ⟨objects, .empty, [], [], []⟩

theorem keepsObj_reserveReadKey (now total : ℕ) : KeepsObj (reserveReadKey now total) := by
  intro e e' r h
  simp only [reserveReadKey] at h
  split_ifs at h
  cases h
  rfl

theorem keepsObj_finishReadKey (now total : ℕ) : KeepsObj (finishReadKey now total) := by
  intro e e' r h
  rcases finishReadKey_cases now total e with hf | ⟨_, _, hf | hf⟩
  · simp [hf] at h
  · simp [hf] at h
  · rw [hf] at h
    cases h
    rfl

theorem keepsObj_finishWriteKey (now : ℕ) : KeepsObj (finishWriteKey now) := by
  intro e e' r h
  rcases finishWriteKey_cases now e with hf | ⟨_, _, hf⟩
  · simp [hf] at h
  · rw [hf] at h
    cases h
    rfl

theorem keepsObj_finishWriteAndReserveReadKey (now total : ℕ) :
    KeepsObj (finishWriteAndReserveReadKey now total) := by
  intro e e' r h
  rcases finishWriteAndReserveReadKey_cases now total e with hf | ⟨_, _, hf⟩
  · simp [hf] at h
  · rw [hf] at h
    cases h
    rfl

theorem keepsObj_deleteKey (now : ℕ) : KeepsObj (deleteKey now) :=
  fun e e' r h => absurd h (L1Clients.deleteKey_ne_keep now e e' r)

def Step : Prop := (m.Accounted → m'.Accounted) ∧ FreesLeft m m'

theorem step_of_perm {m m' : L1Manager K} (objs : List MemoryObj)
    (hmem : m'.memoryManager = m.memoryManager.free objs)
    (hperm : (objs ++ liveObjs m'.objects).Perm (liveObjs m.objects))
    (horigin : ∀ k e', m'.objects.get? k = some e' →
      ∃ e, m.objects.get? k = some e ∧ e.memoryObj = e'.memoryObj) : Step m m' := by
  have hfreed : m'.memoryManager.freed = m.memoryManager.freed ++ objs := by rw [hmem]; rfl
  have hcreated : m'.memoryManager.created = m.memoryManager.created := by rw [hmem]; rfl
  exact ⟨fun h => h.of_perm hfreed hcreated hperm, freesLeft_of_perm hfreed hperm horigin⟩

theorem step_of_keyPass (hkeep : KeepsObj f) {m m' : L1Manager K} (keys : List K)
    (hobjects : m'.objects = (keyPass d f m.objects keys).objects)
    (hmem : m'.memoryManager = m.memoryManager.free (keyPass d f m.objects keys).needToFree) :
    Step m m' := by
  refine step_of_perm _ hmem ?_ fun k => ?_
  · rw [hobjects]
    exact liveObjs_keyPass hkeep m.objects keys
  · rw [hobjects]
    exact keyPass_origin hkeep m.objects keys k

theorem step_of_keeps (hkeep : KeepsObj f) (hdrop : ∀ e r, f e ≠ .drop r) {m m' : L1Manager K}
    (keys : List K) (hobjects : m'.objects = (keyPass d f m.objects keys).objects)
    (hmem : m'.memoryManager = m.memoryManager) : Step m m' := by
  refine step_of_keyPass hkeep keys hobjects ?_
  rw [keyPass_needToFree_of_keeps hdrop, hmem, free, append_nil]

theorem step_clear (m : L1Manager K) (now : ℕ) (force : Bool) : Step m (m.clear now force) := by
  cases force with
  | true =>
    refine step_of_perm _ rfl ?_ fun k e' he' => by simp [clear, notify] at he'
    simp [clear, notify, liveObjs, Dict.values, Dict.empty]
  | false =>
    have hobjects : (m.clear now false).objects =
        ((m.objects.items.filter (fun item => isUnlocked now item.2)).map Prod.fst).foldl
          Dict.erase m.objects := by
      simp only [clear, Bool.false_eq_true, if_false]
      split_ifs <;> rfl
    have hmem : (m.clear now false).memoryManager = m.memoryManager.free
        ((m.objects.items.filter (fun item => isUnlocked now item.2)).map
          (fun item => item.2.memoryObj)) := by
      simp only [clear, Bool.false_eq_true, if_false]
      split_ifs <;> rfl
    have hperm := (m.objects.values_foldl_erase_perm
      (m.objects.items.filter (fun item => isUnlocked now item.2))
      (m.objects.nodup.sublist (filter_sublist.map _))
      fun p hp => (Dict.get?_eq_some_iff _ _ _).mpr (mem_of_mem_filter hp)).map
        memoryObj
    refine step_of_perm _ hmem ?_ fun k e' he' => ?_
    · rw [hobjects]
      rw [map_append, map_map] at hperm
      exact hperm
    · rw [hobjects, Dict.get?_foldl_erase] at he'
      split_ifs at he'
      exact ⟨e', he', rfl⟩

section Reservation

variable (m : L1Manager K) (now : ℕ) (granted : Bool) (keys : List K) (isTemporary : List Bool)
  (mode : WriteMode)

theorem liveObjs_visitWrite (p : WritePass K) (request : K × Bool) :
    (liveObjs (visitWrite now mode p request).objects).Perm (liveObjs p.objects) := by
  cases he : p.objects.get? request.1 with
  | none => simp only [visitWrite, he]; exact .refl _
  | some e =>
    simp only [visitWrite, he]
    split_ifs
    · exact .refl _
    · exact .refl _
    · exact liveObjs_set p.objects he rfl

theorem needToAllocate_visitWrite (p : WritePass K) (request : K × Bool) :
    ∃ ns, (visitWrite now mode p request).needToAllocate = p.needToAllocate ++ ns ∧
      ns.Sublist [request] := by
  cases he : p.objects.get? request.1 with
  | none => exact ⟨[request], by simp only [visitWrite, he], .refl _⟩
  | some e =>
    refine ⟨[], ?_, nil_sublist _⟩
    simp only [visitWrite, he, append_nil]
    split_ifs <;> rfl

omit [DecidableEq K] in
theorem map_fst_zip_sublist : ((keys.zip isTemporary).map Prod.fst).Sublist keys := by
  induction keys generalizing isTemporary with
  | nil => exact .refl _
  | cons key keys ih =>
    cases isTemporary with
    | nil => exact nil_sublist _
    | cons isTemp isTemporary => exact (ih isTemporary).cons_cons key

variable (requests : List (K × Bool))

theorem foldl_visitWrite_objs (p : WritePass K) :
    (liveObjs (requests.foldl (visitWrite now mode) p).objects).Perm (liveObjs p.objects) ∧
      ∃ ns, (requests.foldl (visitWrite now mode) p).needToAllocate = p.needToAllocate ++ ns ∧
        ns.Sublist requests := by
  induction requests generalizing p with
  | nil => exact ⟨.refl _, [], (append_nil _).symm, .refl _⟩
  | cons request requests ih =>
    obtain ⟨hperm, ns, hns, hsub⟩ := ih (visitWrite now mode p request)
    obtain ⟨ms, hms, hsub'⟩ := needToAllocate_visitWrite now mode p request
    refine ⟨hperm.trans (liveObjs_visitWrite now mode p request), ms ++ ns, ?_, hsub'.append hsub⟩
    rw [foldl_cons, hns, hms, append_assoc]

theorem liveObjs_foldl_install (writeTtl readTtl : ℕ) (pairs : List ((K × Bool) × MemoryObj))
    (hnodup : (pairs.map (fun a => a.1.1)).Nodup) (p : WritePass K)
    (habsent : ∀ a ∈ pairs, p.objects.get? a.1.1 = none) :
    (liveObjs (pairs.foldl (install now writeTtl readTtl) p).objects).Perm
      (pairs.map Prod.snd ++ liveObjs p.objects) := by
  induction pairs generalizing p with
  | nil => exact .refl _
  | cons a pairs ih =>
    obtain ⟨hnot, hrest⟩ := nodup_cons.mp hnodup
    have hset := (p.objects.values_set_perm a.1.1
      ⟨a.2, (TTLLock.init writeTtl).lock now, TTLLock.init readTtl, a.1.2⟩).map memoryObj
    rw [habsent a mem_cons_self] at hset
    have hinstall := ih hrest (install now writeTtl readTtl p a) fun b hb => by
      have hne : ¬ a.1.1 = b.1.1 := fun h => hnot (mem_map.mpr ⟨b, hb, h.symm⟩)
      rw [install, Dict.get?_set, if_neg hne]
      exact habsent b (mem_cons_of_mem _ hb)
    exact (hinstall.trans (hset.append_left _)).trans perm_middle

theorem reserveWrite_objs (hkeys : keys.Nodup) :
    ∃ count, (m.reserveWrite now granted keys isTemporary mode).2.memoryManager =
        ⟨m.memoryManager.created + count, m.memoryManager.freed⟩ ∧
      (liveObjs (m.reserveWrite now granted keys isTemporary mode).2.objects).Perm
        (range' m.memoryManager.created count ++ liveObjs m.objects) := by
  obtain ⟨hperm, needs, hneeds, hsub⟩ :=
    foldl_visitWrite_objs now mode (keys.zip isTemporary) ⟨m.objects, .empty, [], []⟩
  have hvisited := fun k => visited_foldl (keys.zip isTemporary) (visited_start now mode m.objects k)
  have hnodup : (needs.map Prod.fst).Nodup :=
    (hkeys.sublist (map_fst_zip_sublist keys isTemporary)).sublist (hsub.map _)
  unfold reserveWrite
  generalize (keys.zip isTemporary).foldl (visitWrite now mode) ⟨m.objects, .empty, [], []⟩ = p
    at hperm hneeds hvisited
  obtain rfl : p.needToAllocate = needs := hneeds
  dsimp only
  split_ifs with hempty hmode
  · exact ⟨0, rfl, hperm⟩
  · exact ⟨0, rfl, hperm⟩
  · cases granted with
    | false => exact ⟨0, by simp [allocate, free, notify], hperm⟩
    | true =>
      refine ⟨p.needToAllocate.length, rfl, ?_⟩
      have hlength : p.needToAllocate.length =
          (range' m.memoryManager.created p.needToAllocate.length).length := by simp
      have hinstall := liveObjs_foldl_install now m.writeTtlSeconds m.readTtlSeconds
        (p.needToAllocate.zip (range' m.memoryManager.created p.needToAllocate.length))
        (by
          rw [← map_fst_zip hlength.le, map_map] at hnodup
          exact hnodup) p fun a ha => ?_
      · rw [map_snd_zip hlength.ge] at hinstall
        exact hinstall.trans (hperm.append_left _)
      · have hmem : a.1.1 ∈ p.needToAllocate.map Prod.fst :=
          mem_map_of_mem (of_mem_zip ha).1
        have hkey := hvisited a.1.1
        cases he : m.objects.get? a.1.1 with
        | none =>
          rw [he] at hkey
          exact hkey.1
        | some e =>
          rw [he] at hkey
          exact absurd hmem hkey.1

theorem step_reserveWrite (hkeys : keys.Nodup) :
    Step m (m.reserveWrite now granted keys isTemporary mode).2 := by
  obtain ⟨count, hmem, hperm⟩ := m.reserveWrite_objs now granted keys isTemporary mode hkeys
  constructor
  · intro h
    rw [Accounted, hmem]
    have hrange : range (m.memoryManager.created + count) =
        range m.memoryManager.created ++ range' m.memoryManager.created count := by
      rw [range_eq_range', range_eq_range', ← range'_append_1, Nat.zero_add]
    rw [hrange]
    refine (hperm.append_left _).trans (.trans ?_ (h.append_right _))
    rw [append_assoc]
    exact perm_append_comm.append_left _
  · refine ⟨[], by rw [hmem, append_nil], ?_⟩
    have hstays : ∀ item ∈ m.objects.items,
        ¬ ((m.reserveWrite now granted keys isTemporary mode).2.objects.get? item.1).isNone = true := by
      intro item hitem
      rcases m.reserveWrite_cases now granted keys isTemporary mode item.1 with
        ⟨e, n, _, he', _⟩ | ⟨hnone, _⟩
      · simp [he']
      · rw [(Dict.get?_eq_some_iff _ _ item.2).mpr hitem] at hnone
        cases hnone
    rw [leftObjs, filter_eq_nil_iff.mpr hstays]
    exact .refl _

theorem foldl_visitWrite_not_outOfMemory {p : WritePass K}
    (h : ∀ k o, p.ret.get? k ≠ some (.outOfMemory, o)) (k : K) (o : Option MemoryObj) :
    (requests.foldl (visitWrite now mode) p).ret.get? k ≠ some (.outOfMemory, o) := by
  induction requests generalizing p with
  | nil => exact h k o
  | cons request requests ih =>
    apply ih
    intro k o
    cases he : p.objects.get? request.1 with
    | none => simpa only [visitWrite, he] using h k o
    | some e =>
      simp only [visitWrite, he]
      split_ifs <;>
        · rw [Dict.get?_set]
          split_ifs
          · simp
          · exact h k o

theorem not_granted_of_outOfMemory {k : K} {o : Option MemoryObj}
    (h : (m.reserveWrite now granted keys isTemporary mode).1.get? k = some (.outOfMemory, o)) :
    granted = false := by
  have hpass := fun k o => foldl_visitWrite_not_outOfMemory now mode (keys.zip isTemporary)
    (p := ⟨m.objects, .empty, [], []⟩) (by simp) k o
  unfold reserveWrite at h
  generalize (keys.zip isTemporary).foldl (visitWrite now mode) ⟨m.objects, .empty, [], []⟩ = p
    at h hpass
  dsimp only at h
  split_ifs at h with hempty hmode
  · exact absurd h (hpass k o)
  · rw [refuseAll_get?] at h
    split_ifs at h
    · simp at h
    · exact absurd h (hpass k o)
  · cases granted with
    | false => rfl
    | true =>
      simp only [allocate, if_true] at h
      rcases foldl_install now m.writeTtlSeconds m.readTtlSeconds
        (p.needToAllocate.zip (range' m.memoryManager.created p.needToAllocate.length))
        p k with ⟨_, hret, _⟩ | ⟨a, _, _, _, hret⟩
      · rw [hret] at h
        exact absurd h (hpass k o)
      · simp [hret] at h

theorem refusesNew_step (op : L1Step K) : RefusesNew m now op := by
  cases op with
  | reserveWrite granted keys isTemporary mode =>
    intro k o hreply k' hnone
    have hrefused := m.not_granted_of_outOfMemory now granted keys isTemporary mode hreply
    rw [← Option.not_isSome_iff_eq_none, m.reserveWrite_absent_iff now granted keys isTemporary mode
      hnone, hrefused]
    simp
  | _ => trivial

end Reservation

end L1Manager

namespace TimedL1

open L1Manager (Conserved FreesLeft RefusesNew Accounted)

variable {K : Type} [DecidableEq K]

def init (writeTtl readTtl now : ℕ) : TimedL1 K := ⟨L1Manager.init writeTtl readTtl, now⟩

def exec (s : TimedL1 K) (op : L1Step K) : TimedL1 K := ⟨s.manager.step s.now op, op.tick s.now⟩

def DistinctWrites : L1Step K → Prop
  | .reserveWrite _ keys _ _ => keys.Nodup
  | _ => True

theorem step_exec (s : TimedL1 K) (op : L1Step K) (h : DistinctWrites op) :
    L1Manager.Step s.manager (s.exec op).manager := by
  have hsame : L1Manager.Step s.manager s.manager :=
    L1Manager.step_of_perm [] (by rw [free, append_nil]) (.refl _)
      fun _ e he => ⟨e, he, rfl⟩
  cases op with
  | advance ms => exact hsame
  | reserveRead keys extraCount =>
    exact L1Manager.step_of_keeps (L1Manager.keepsObj_reserveReadKey _ _)
      (L1Clients.reserveReadKey_ne_drop _ _) keys rfl rfl
  | unsafeRead keys => exact hsame
  | finishRead keys extraCount =>
    exact L1Manager.step_of_keyPass (L1Manager.keepsObj_finishReadKey _ _) keys rfl rfl
  | reserveWrite granted keys isTemporary mode =>
    exact L1Manager.step_reserveWrite _ _ _ _ _ _ h
  | finishWrite keys =>
    exact L1Manager.step_of_keeps (L1Manager.keepsObj_finishWriteKey _)
      (L1Clients.finishWriteKey_ne_drop _) keys rfl rfl
  | finishWriteAndReserveRead keys extraCount =>
    exact L1Manager.step_of_keeps (L1Manager.keepsObj_finishWriteAndReserveReadKey _ _)
      (L1Clients.finishWriteAndReserveReadKey_ne_drop _ _) keys rfl rfl
  | delete keys =>
    exact L1Manager.step_of_keyPass (L1Manager.keepsObj_deleteKey _) keys rfl rfl
  | clear force => exact L1Manager.step_clear _ _ _

omit [DecidableEq K] in
theorem accounted_init (writeTtl readTtl now : ℕ) :
    (init writeTtl readTtl now : TimedL1 K).manager.Accounted := .refl _

theorem memory_conserved (writeTtl readTtl now : ℕ) (ops : List (L1Step K))
    (hwrites : ∀ op ∈ ops, DistinctWrites op) :
    Execution.Along exec
      (fun s op => Conserved (s.exec op).manager ∧ FreesLeft s.manager (s.exec op).manager ∧
        RefusesNew s.manager s.now op) (init writeTtl readTtl now) ops := by
  refine Execution.along_of_invariant (I := fun s => s.manager.Accounted)
    (Q := fun _ op => DistinctWrites op) (fun s op h hop => (step_exec s op hop).1 h)
    (fun s op h hop => ?_) (accounted_init writeTtl readTtl now)
    (Execution.along_of_mem hwrites _)
  have hstep := step_exec s op hop
  exact ⟨(hstep.1 h).conserved, hstep.2, s.manager.refusesNew_step s.now op⟩

def everyWayOut : List (L1Step ℕ) :=
  [.reserveWrite true [1, 2, 3, 4] [true, false, false, false] .new,
    .reserveWrite false [5, 6] [false, false] .new,
    .finishWriteAndReserveRead [1] 0, .finishRead [1] 0, .finishWrite [2, 3], .delete [2],
    .clear false, .advance 1, .clear true]

theorem memory_conserved_everyWayOut :
    Execution.Along exec
      (fun s op => Conserved (s.exec op).manager ∧ FreesLeft s.manager (s.exec op).manager ∧
        RefusesNew s.manager s.now op) (init 600 300 0) everyWayOut :=
  memory_conserved 600 300 0 everyWayOut (by simp [everyWayOut, DistinctWrites])

end TimedL1

end LMCache
