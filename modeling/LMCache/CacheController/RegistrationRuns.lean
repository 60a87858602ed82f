import LMCache.CacheController.Registration

namespace LMCache

open Execution Dict Function Nat Option

namespace RegistryCall

variable {W : Type}

def instanceId : RegistryCall W → String
  | register instanceId _ _ _ => instanceId
  | deregister instanceId _ _ => instanceId

def ref? : RegistryCall W → Option ℕ
  | register _ _ _ .creating => none
  | register _ _ _ (.adding ref) => some ref
  | deregister _ _ (.removing ref) => some ref
  | deregister _ _ (.checking ref _) => some ref
  | deregister _ _ (.cleaning ref _) => some ref
  | deregister _ _ (.popping ref _) => some ref

def Pending (instanceId : String) (workerId ref : ℕ) : RegistryCall W → Prop
  | register instanceId' workerId' _ .creating => instanceId' = instanceId ∧ workerId' = workerId
  | register _ workerId' _ (.adding ref') => ref' = ref ∧ workerId' = workerId
  | deregister _ workerId' (.removing ref') => ref' = ref ∧ workerId' = workerId
  | deregister _ _ _ => False

instance (instanceId : String) (workerId ref : ℕ) :
    DecidablePred (Pending instanceId workerId ref : RegistryCall W → Prop)
  | register instanceId' workerId' _ .creating =>
      inferInstanceAs (Decidable (instanceId' = instanceId ∧ workerId' = workerId))
  | register _ workerId' _ (.adding ref') =>
      inferInstanceAs (Decidable (ref' = ref ∧ workerId' = workerId))
  | deregister _ workerId' (.removing ref') =>
      inferInstanceAs (Decidable (ref' = ref ∧ workerId' = workerId))
  | deregister _ _ (.checking _ _) => .isFalse id
  | deregister _ _ (.cleaning _ _) => .isFalse id
  | deregister _ _ (.popping _ _) => .isFalse id

def Adding (ref : ℕ) : RegistryCall W → Prop
  | register _ _ _ (.adding ref') => ref' = ref
  | _ => False

instance (ref : ℕ) : DecidablePred (Adding ref : RegistryCall W → Prop)
  | register _ _ _ (.adding ref') => inferInstanceAs (Decidable (ref' = ref))
  | register _ _ _ .creating => .isFalse id
  | deregister _ _ _ => .isFalse id

def AfterRemoval (ref : ℕ) : RegistryCall W → Prop
  | deregister _ _ (.checking ref' _) => ref' = ref
  | deregister _ _ (.cleaning ref' _) => ref' = ref
  | deregister _ _ (.popping ref' _) => ref' = ref
  | _ => False

end RegistryCall

namespace SharedRegistry

variable {W : Type}

def Begins (instanceId : String) (workerId : ℕ) : RegistryEvent W → Prop
  | .registerWorker instanceId' workerId' _ => instanceId' = instanceId ∧ workerId' = workerId
  | .deregisterWorker instanceId' workerId' => instanceId' = instanceId ∧ workerId' = workerId
  | _ => False

variable (events : List (RegistryEvent W))

def WorkersStay : Prop :=
  ∀ pre mid rest callId instanceId workerId worker ref,
    events = pre ++ .step callId :: (mid ++ rest) →
    (final exec create pre).calls.get? callId =
      some (.register instanceId workerId worker (.adding ref)) →
    (∀ e ∈ mid ++ rest, ¬ Begins instanceId workerId e) →
    (final exec create (pre ++ .step callId :: (mid ++ rest))).getWorkerAt
      ((final exec create (pre ++ .step callId :: mid)).getInstance instanceId) workerId =
        some worker

def EmptiedLeave : Prop :=
  ∀ pre rest callId instanceId workerId ref, events = pre ++ .step callId :: rest →
    (final exec create pre).calls.get? callId =
      some (.deregister instanceId workerId (.removing ref)) →
    (∀ mid last, rest = mid ++ last →
      ((final exec create (pre ++ .step callId :: mid)).nodes ref).hasWorkers = false) →
    (final exec create events).returned.get? callId ≠ none →
    ∀ instanceId', (final exec create events).getInstance instanceId' ≠ some ref

def SafeStep (s : SharedRegistry W) (callId : ℕ) : RegistryCall W → Prop
  | .register instanceId workerId _ (.adding ref) =>
      ∀ p ∈ s.calls.items, p.1 ≠ callId → ¬ p.2.Pending instanceId workerId ref
  | .deregister instanceId _ (.popping _ _) =>
      ∀ ref ∈ s.instances.get? instanceId,
        (s.nodes ref).hasWorkers = false ∧ ∀ p ∈ s.calls.items, ¬ p.2.Adding ref
  | _ => True

instance (s : SharedRegistry W) (callId : ℕ) : DecidablePred (SafeStep s callId)
  | .register instanceId workerId _ (.adding ref) => inferInstanceAs
      (Decidable (∀ p ∈ s.calls.items, p.1 ≠ callId → ¬ p.2.Pending instanceId workerId ref))
  | .deregister instanceId _ (.popping _ _) => inferInstanceAs
      (Decidable (∀ ref ∈ s.instances.get? instanceId,
        (s.nodes ref).hasWorkers = false ∧ ∀ p ∈ s.calls.items, ¬ p.2.Adding ref))
  | .register _ _ _ .creating => .isTrue trivial
  | .deregister _ _ (.removing _) => .isTrue trivial
  | .deregister _ _ (.checking _ _) => .isTrue trivial
  | .deregister _ _ (.cleaning _ _) => .isTrue trivial

def Safe (s : SharedRegistry W) : RegistryEvent W → Prop
  | .step callId => ∀ call ∈ s.calls.get? callId, SafeStep s callId call
  | _ => True

instance (s : SharedRegistry W) : DecidablePred (Safe s)
  | .step callId =>
      inferInstanceAs (Decidable (∀ call ∈ s.calls.get? callId, SafeStep s callId call))
  | .registerWorker _ _ _ => .isTrue trivial
  | .deregisterWorker _ _ => .isTrue trivial
  | .timeout _ => .isTrue trivial

structure WellFormed (s : SharedRegistry W) : Prop where
  filed : ∀ instanceId ref, s.instances.get? instanceId = some ref →
    ref < s.nextRef ∧ (s.nodes ref).instanceId = instanceId
  reached : ∀ callId call, s.calls.get? callId = some call → ∀ ref, call.ref? = some ref →
    ref < s.nextRef ∧ (s.nodes ref).instanceId = call.instanceId
  callIds : ∀ callId call, s.calls.get? callId = some call → callId < s.nextCall
  returnedIds : ∀ callId result, s.returned.get? callId = some result →
    callId < s.nextCall ∧ s.calls.get? callId = none

variable {s : SharedRegistry W} {callId : ℕ}

theorem Safe.alone {instanceId : String} {workerId : ℕ} {worker : W} {ref : ℕ}
    (h : Safe s (.step callId))
    (hcall : s.calls.get? callId = some (.register instanceId workerId worker (.adding ref)))
    (other : ℕ) (call : RegistryCall W) (hne : other ≠ callId)
    (hother : s.calls.get? other = some call) : ¬ call.Pending instanceId workerId ref :=
  h _ hcall (other, call) ((get?_eq_some_iff _ _ _).mp hother) hne

theorem Safe.unused {instanceId : String} {workerId popped : ℕ} {removed : Option W} {ref : ℕ}
    (h : Safe s (.step callId)) (hcall : s.calls.get? callId =
      some (.deregister instanceId workerId (.popping popped removed)))
    (hfiled : s.instances.get? instanceId = some ref) :
    (s.nodes ref).hasWorkers = false ∧
      ∀ other call, s.calls.get? other = some call → ¬ call.Adding ref :=
  have hunused := h _ hcall ref hfiled
  ⟨hunused.1, fun other call hother =>
    hunused.2 (other, call) ((get?_eq_some_iff _ _ _).mp hother)⟩

theorem wellFormed_create : WellFormed (create : SharedRegistry W) where
  filed _ _ h := absurd h (by simp [create])
  reached _ _ h := absurd h (by simp [create])
  callIds _ _ h := absurd h (by simp [create])
  returnedIds _ _ h := absurd h (by simp [create])

variable {call : RegistryCall W}

theorem WellFormed.returned_of_call (h : WellFormed s) (hcall : s.calls.get? callId = some call) :
    s.returned.get? callId = none := by
  cases hresult : s.returned.get? callId with
  | none => rfl
  | some result =>
    rw [(h.returnedIds callId result hresult).2] at hcall
    exact absurd hcall (by simp)

theorem WellFormed.returned_nextCall (h : WellFormed s) : s.returned.get? s.nextCall = none := by
  cases hresult : s.returned.get? s.nextCall with
  | none => rfl
  | some result => exact absurd (h.returnedIds _ result hresult).1 (lt_irrefl _)

theorem WellFormed.setCall (h : WellFormed s) (hreturned : s.returned.get? callId = none)
    (href : ∀ ref, call.ref? = some ref →
      ref < s.nextRef ∧ (s.nodes ref).instanceId = call.instanceId) {n : ℕ} (hn : s.nextCall ≤ n)
    (hid : callId < n) :
    WellFormed { s.setCall callId call with nextCall := n } where
  filed := h.filed
  reached := forall_set h.reached href
  callIds := forall_set
    (fun other call hcall => lt_of_lt_of_le (h.callIds other call hcall) hn) hid
  returnedIds other result hresult := by
    refine ⟨lt_of_lt_of_le (h.returnedIds other result hresult).1 hn, ?_⟩
    change (s.calls.set callId call).get? other = none
    rw [get?_set]
    split_ifs with heq
    · subst heq
      change s.returned.get? callId = some result at hresult
      rw [hreturned] at hresult
      exact absurd hresult (by simp)
    · exact (h.returnedIds other result hresult).2

theorem WellFormed.abandon (h : WellFormed s) (callId : ℕ) : WellFormed (s.abandon callId) where
  filed := h.filed
  reached := forall_erase h.reached callId
  callIds := forall_erase h.callIds callId
  returnedIds other result hresult := by
    refine ⟨(h.returnedIds other result hresult).1, ?_⟩
    change (s.calls.erase callId).get? other = none
    rw [get?_erase, (h.returnedIds other result hresult).2, ite_self]

theorem WellFormed.finish (h : WellFormed s) {callId n : ℕ} (result : Option W)
    (hn : s.nextCall ≤ n) (hid : callId < n) :
    WellFormed { s.finish callId result with nextCall := n } where
  filed := h.filed
  reached := (h.abandon callId).reached
  callIds other call hcall := lt_of_lt_of_le ((h.abandon callId).callIds other call hcall) hn
  returnedIds other result' hresult := by
    change (s.returned.set callId result).get? other = some result' at hresult
    rw [get?_set] at hresult
    split_ifs at hresult with heq
    · subst heq
      refine ⟨hid, ?_⟩
      change (s.calls.erase callId).get? callId = none
      rw [get?_erase, if_pos rfl]
    · have hother := (h.abandon callId).returnedIds other result' hresult
      exact ⟨lt_of_lt_of_le hother.1 hn, hother.2⟩

theorem WellFormed.mapNode (h : WellFormed s) (ref : ℕ) {f : InstanceNode W → InstanceNode W}
    (hf : ∀ node, (f node).instanceId = node.instanceId) : WellFormed (s.mapNode ref f) := by
  have hkept : ∀ other, ((s.mapNode ref f).nodes other).instanceId = (s.nodes other).instanceId := by
    intro other
    change (update s.nodes ref (f (s.nodes ref)) other).instanceId = _
    rw [update_apply]
    split_ifs with heq
    · rw [hf, heq]
    · rfl
  constructor
  · intro instanceId other hother
    rw [hkept]
    exact h.filed instanceId other hother
  · intro callId call hcall other hother
    rw [hkept]
    exact h.reached callId call hcall other hother
  · exact h.callIds
  · exact h.returnedIds

theorem WellFormed.fileInstance (h : WellFormed s) (instanceId : String) :
    WellFormed (s.fileInstance instanceId) := by
  have hkept : ∀ ref, ref < s.nextRef → (s.fileInstance instanceId).nodes ref = s.nodes ref :=
    fun ref hlt => update_of_ne (Nat.ne_of_lt hlt) _ _
  constructor
  · refine forall_set (fun other ref hfiled => ?_) ⟨lt_succ_self _, ?_⟩
    · obtain ⟨hlt, hid⟩ := h.filed other ref hfiled
      rw [hkept ref hlt]
      exact ⟨lt_succ_of_lt hlt, hid⟩
    · change (update s.nodes s.nextRef _ s.nextRef).instanceId = instanceId
      rw [update_self]
      rfl
  · intro callId call hcall ref href
    obtain ⟨hlt, hid⟩ := h.reached callId call hcall ref href
    rw [hkept ref hlt]
    exact ⟨lt_succ_of_lt hlt, hid⟩
  · exact h.callIds
  · exact h.returnedIds

theorem WellFormed.unfile (h : WellFormed s) (instanceId : String) (writer : Option ℕ) :
    WellFormed { s with instances := s.instances.erase instanceId, writer := writer } where
  filed := forall_erase h.filed instanceId
  reached := h.reached
  callIds := h.callIds
  returnedIds := h.returnedIds

theorem WellFormed.lock (h : WellFormed s) (writer : Option ℕ) :
    WellFormed { s with writer := writer } := ⟨h.filed, h.reached, h.callIds, h.returnedIds⟩

variable {s' : SharedRegistry W} {e : RegistryEvent W}

theorem WellFormed.effect (h : WellFormed s) (heffect : Effect s e s') : WellFormed s' := by
  have hid := fun {callId : ℕ} {call : RegistryCall W}
    (hcall : s.calls.get? callId = some call) => h.callIds callId call hcall
  cases heffect with
  | idle => exact h
  | obtained workerId worker hfiled | found workerId hfiled =>
    refine h.setCall h.returned_nextCall (fun ref href => ?_) (le_succ _) (lt_succ_self _)
    obtain rfl := some.inj href
    exact h.filed _ _ hfiled
  | missed workerId worker =>
    exact h.setCall h.returned_nextCall (fun _ href => absurd href (by simp [RegistryCall.ref?]))
      (le_succ _) (lt_succ_self _)
  | absent => exact h.finish none (le_succ _) (lt_succ_self _)
  | joined hcall hfiled =>
    refine h.setCall (h.returned_of_call hcall) (fun ref href => ?_) (le_refl _) (hid hcall)
    obtain rfl := some.inj href
    exact h.filed _ _ hfiled
  | @created callId instanceId workerId worker hcall habsent =>
    have hfile := h.fileInstance instanceId
    refine hfile.setCall (h.returned_of_call hcall) (fun ref href => ?_) (le_refl _) (hid hcall)
    obtain rfl := some.inj href
    exact hfile.filed instanceId s.nextRef (get?_set_self _ _ _)
  | @added callId instanceId workerId worker ref hcall =>
    have hmap := h.mapNode (f := fun node => node.addWorker workerId worker) ref fun _ => rfl
    exact hmap.finish worker (le_refl _) (hid hcall)
  | @removed callId instanceId workerId ref hcall =>
    have hmap := h.mapNode (f := fun node => (node.removeWorker workerId).2) ref fun _ => rfl
    refine hmap.setCall (h.returned_of_call hcall) (fun ref' href => ?_) (le_refl _) (hid hcall)
    obtain rfl := some.inj href
    have hreached := hmap.reached callId _ hcall ref rfl
    exact hreached
  | kept _ hcall => exact h.finish _ (le_refl _) (hid hcall)
  | @emptied callId _ _ ref _ hcall =>
    refine h.setCall (h.returned_of_call hcall) (fun ref' href => ?_) (le_refl _) (hid hcall)
    obtain rfl := some.inj href
    have hreached := h.reached callId _ hcall ref rfl
    exact hreached
  | @locked callId _ _ ref _ hcall =>
    refine (h.lock (some callId)).setCall (h.returned_of_call hcall) (fun ref' href => ?_)
      (le_refl _) (hid hcall)
    obtain rfl := some.inj href
    have hreached := h.reached callId _ hcall ref rfl
    exact hreached
  | popped hcall => exact (h.unfile _ none).finish _ (le_refl _) (hid hcall)
  | timedOut => exact h.abandon _

theorem WellFormed.exec (h : WellFormed s) (e : RegistryEvent W) : WellFormed (s.exec e) :=
  h.effect (effect_exec s e)

def Linked (s : SharedRegistry W) : Prop :=
  ∀ callId call, s.calls.get? callId = some call → ∀ instanceId workerId worker ref,
    call = .register instanceId workerId worker (.adding ref) →
      s.instances.get? instanceId = some ref

theorem linked_create : Linked (create : SharedRegistry W) := fun _ _ h =>
  absurd h (by simp [create])

theorem Linked.effect (hlinked : Linked s) (hsafe : Safe s e) (heffect : Effect s e s') :
    Linked s' := by
  cases heffect with
  | idle => exact hlinked
  | obtained workerId worker hfiled | joined hcall hfiled =>
    refine forall_set hlinked fun _ _ _ _ heq => ?_
    cases heq
    exact hfiled
  | missed | found | removed | emptied =>
    exact forall_set hlinked fun _ _ _ _ heq => nomatch heq
  | absent => exact forall_erase hlinked _
  | @created callId instanceId workerId worker hcall habsent =>
    refine forall_set (fun other call hother instanceId' workerId' worker' ref heq => ?_)
      fun _ _ _ _ heq => ?_
    · have hfiled := hlinked other call hother instanceId' workerId' worker' ref heq
      have hne : instanceId ≠ instanceId' := by
        rintro rfl
        rw [habsent] at hfiled
        exact absurd hfiled (by simp)
      exact (get?_set_ne _ _ hne).trans hfiled
    · cases heq
      exact get?_set_self _ _ _
  | added => exact forall_erase hlinked _
  | kept => exact forall_erase hlinked _
  | locked => exact forall_set hlinked fun _ _ _ _ heq => nomatch heq
  | @popped callId instanceId workerId popped removed hcall =>
    refine forall_erase (fun other call hother instanceId' workerId' worker ref heq => ?_) _
    have hfiled := hlinked other call hother instanceId' workerId' worker ref heq
    have hne : instanceId ≠ instanceId' := by
      rintro rfl
      subst heq
      exact (hsafe.unused hcall hfiled).2 other _ hother rfl
    change (s.instances.erase instanceId).get? instanceId' = some ref
    rw [get?_erase, if_neg hne]
    exact hfiled
  | timedOut => exact forall_erase hlinked _

structure Entered (s : SharedRegistry W) (instanceId : String) (workerId : ℕ) (worker : W)
    (ref : ℕ) : Prop where
  filed : s.instances.get? instanceId = some ref
  entry : (s.nodes ref).getWorker workerId = some worker
  quiet : ∀ callId call, s.calls.get? callId = some call →
    ¬ call.Pending instanceId workerId ref

variable {instanceId : String} {workerId : ℕ} {worker : W} {ref : ℕ}

theorem WellFormed.instanceId_unique (h : WellFormed s) {instanceId' : String}
    (h1 : s.instances.get? instanceId = some ref) (h2 : s.instances.get? instanceId' = some ref) :
    instanceId = instanceId' := (h.filed _ _ h1).2.symm.trans (h.filed _ _ h2).2

theorem hasWorkers_of_getWorker {node : InstanceNode W}
    (h : node.getWorker workerId = some worker) : node.hasWorkers = true := by
  have hmem := (get?_eq_some_iff node.workers workerId worker).mp h
  exact decide_eq_true (List.length_pos_of_mem hmem)

theorem getWorker_mapNode_of_ne (ref' : ℕ) (f : InstanceNode W → InstanceNode W)
    (hf : ref' = ref → (f (s.nodes ref)).getWorker workerId = (s.nodes ref).getWorker workerId) :
    ((s.mapNode ref' f).nodes ref).getWorker workerId = (s.nodes ref).getWorker workerId := by
  change (update s.nodes ref' (f (s.nodes ref')) ref).getWorker workerId = _
  rw [update_apply]
  split_ifs with heq
  · rw [heq] at hf ⊢
    exact hf rfl
  · rfl

theorem Entered.effect (h : Entered s instanceId workerId worker ref) (hwell : WellFormed s)
    (hsafe : Safe s e) (hbegins : ¬ Begins instanceId workerId e) (heffect : Effect s e s') :
    Entered s' instanceId workerId worker ref := by
  cases heffect with
  | idle => exact h
  | obtained workerId' worker' hfiled | found workerId' hfiled =>
    refine ⟨h.filed, h.entry, forall_set h.quiet ?_⟩
    rintro ⟨rfl, rfl⟩
    exact hbegins ⟨hwell.instanceId_unique hfiled h.filed, rfl⟩
  | missed workerId' worker' =>
    exact ⟨h.filed, h.entry, forall_set h.quiet hbegins⟩
  | absent => exact ⟨h.filed, h.entry, forall_erase h.quiet _⟩
  | @joined callId _ _ _ _ hcall hfiled =>
    refine ⟨h.filed, h.entry, forall_set h.quiet ?_⟩
    rintro ⟨rfl, rfl⟩
    exact h.quiet callId _ hcall ⟨hwell.instanceId_unique hfiled h.filed, rfl⟩
  | @created callId instanceId' _ _ hcall habsent =>
    have hne : instanceId' ≠ instanceId := by
      rintro rfl
      exact absurd (habsent.symm.trans h.filed) (by simp)
    have hlt := (hwell.filed instanceId ref h.filed).1
    refine ⟨(get?_set_ne _ _ hne).trans h.filed, ?_, forall_set h.quiet ?_⟩
    · change (update s.nodes s.nextRef _ ref).getWorker workerId = some worker
      rw [update_of_ne (Nat.ne_of_lt hlt)]
      exact h.entry
    · rintro ⟨rfl, _⟩
      exact lt_irrefl _ hlt
  | @added callId _ workerId' worker' ref' hcall =>
    have hkept := getWorker_mapNode_of_ne ref' (fun node => node.addWorker workerId' worker')
      fun heq => get?_set_ne (s.nodes ref).workers worker' fun hid =>
        h.quiet callId _ hcall ⟨heq, hid⟩
    exact ⟨h.filed, hkept.trans h.entry, forall_erase h.quiet _⟩
  | @removed callId _ workerId' ref' hcall =>
    refine ⟨h.filed, ?_, forall_set h.quiet id⟩
    refine (getWorker_mapNode_of_ne ref' (fun node => (node.removeWorker workerId').2)
      fun heq => ?_).trans h.entry
    have hne : workerId' ≠ workerId := fun hid => h.quiet callId _ hcall ⟨heq, hid⟩
    change ((s.nodes ref).workers.erase workerId').get? workerId = _
    rw [get?_erase, if_neg hne]
    rfl
  | kept => exact ⟨h.filed, h.entry, forall_erase h.quiet _⟩
  | emptied => exact ⟨h.filed, h.entry, forall_set h.quiet id⟩
  | locked => exact ⟨h.filed, h.entry, forall_set h.quiet id⟩
  | @popped callId instanceId' workerId' popped removed hcall =>
    have hne : instanceId' ≠ instanceId := by
      rintro rfl
      exact absurd (hsafe.unused hcall h.filed).1 (by rw [hasWorkers_of_getWorker h.entry]; simp)
    refine ⟨?_, h.entry, forall_erase h.quiet _⟩
    change (s.instances.erase instanceId').get? instanceId = some ref
    rw [get?_erase, if_neg hne]
    exact h.filed
  | timedOut => exact ⟨h.filed, h.entry, forall_erase h.quiet _⟩

theorem Entered.of_adding (hlinked : Linked s) (hsafe : Safe s (.step callId))
    (hcall : s.calls.get? callId = some (.register instanceId workerId worker (.adding ref))) :
    Entered (s.exec (.step callId)) instanceId workerId worker ref := by
  simp only [exec, hcall, stepRegister]
  refine ⟨hlinked callId _ hcall _ _ _ _ rfl, ?_, ?_⟩
  · change (update s.nodes ref _ ref).getWorker workerId = some worker
    rw [update_self]
    exact get?_set_self _ _ _
  · intro other call hother
    change (s.calls.erase callId).get? other = some call at hother
    rw [get?_erase] at hother
    split_ifs at hother with heq
    exact hsafe.alone hcall other call (fun h => heq h.symm) hother

theorem Entered.final {events : List (RegistryEvent W)}
    (h : Entered s instanceId workerId worker ref) (hwell : WellFormed s)
    (hsafe : Execution.Along exec Safe s events)
    (hbegins : ∀ e ∈ events, ¬ Begins instanceId workerId e) :
    Entered (final exec s events) instanceId workerId worker ref := by
  induction events generalizing s with
  | nil => exact h
  | cons e events ih =>
    apply ih _ (hwell.exec e) hsafe.2 fun e' he' => hbegins e' (List.mem_cons_of_mem _ he')
    exact h.effect hwell hsafe.1 (hbegins e List.mem_cons_self) (effect_exec s e)

theorem wellFormed_final : WellFormed (final exec create events) :=
  invariant_final (Q := fun _ _ => True) (fun _ e h _ => h.exec e) wellFormed_create
    (along_of_forall (fun _ _ => trivial) _ _)

theorem invariants_final {events : List (RegistryEvent W)}
    (hsafe : Execution.Along exec Safe create events) :
    WellFormed (final exec create events) ∧ Linked (final exec create events) :=
  invariant_final (I := fun s => WellFormed s ∧ Linked s)
    (fun s e h hstep => ⟨h.1.exec e, h.2.effect hstep (effect_exec s e)⟩)
    ⟨wellFormed_create, linked_create⟩ hsafe

theorem workersStay_of_safe {events : List (RegistryEvent W)}
    (hsafe : Execution.Along exec Safe create events) : WorkersStay events := by
  intro pre mid rest callId instanceId workerId worker ref hevents hcall hbegins
  subst hevents
  obtain ⟨hpre, hstep, hlater⟩ := (along_append _ _ _).mp hsafe
  obtain ⟨hmid, hrest⟩ := (along_append _ _ _).mp hlater
  obtain ⟨hwell, hlinked⟩ := invariants_final hpre
  have hentered := (Entered.of_adding hlinked hstep hcall).final (hwell.exec _) hmid
    fun e he => hbegins e (List.mem_append_left _ he)
  have hread : Entered (final exec create (pre ++ .step callId :: mid)) instanceId workerId
      worker ref := by
    rw [final_append]
    exact hentered
  have hlast : Entered (final exec create (pre ++ .step callId :: (mid ++ rest)))
      instanceId workerId worker ref := by
    rw [← List.cons_append, ← List.append_assoc, final_append]
    apply hread.final (wellFormed_final _) _ fun e he => hbegins e (List.mem_append_right _ he)
    rw [final_append]
    exact hrest
  rw [getInstance, hread.filed]
  exact hlast.entry

structure Unfiled (s : SharedRegistry W) (ref : ℕ) : Prop where
  old : ref < s.nextRef
  unfiled : ∀ instanceId other, s.instances.get? instanceId = some other → other ≠ ref

theorem Unfiled.effect (h : Unfiled s ref) (heffect : Effect s e s') : Unfiled s' ref := by
  cases heffect with
  | created hcall habsent =>
    exact ⟨lt_succ_of_lt h.old, forall_set h.unfiled (ne_of_gt h.old)⟩
  | popped hcall => exact ⟨h.old, forall_erase h.unfiled _⟩
  | _ => exact ⟨h.old, h.unfiled⟩

structure Cleaning (s : SharedRegistry W) (callId ref : ℕ) : Prop where
  old : callId < s.nextCall
  unreturned : s.returned.get? callId = none
  stands : ∀ call, s.calls.get? callId = some call → call.AfterRemoval ref

theorem Cleaning.setCall (h : Cleaning s callId ref) {other : ℕ}
    (hcall : other = callId → call.AfterRemoval ref) {n : ℕ} (hn : s.nextCall ≤ n) :
    Cleaning { s.setCall other call with nextCall := n } callId ref := by
  refine ⟨lt_of_lt_of_le h.old hn, h.unreturned, fun call' hcall' => ?_⟩
  change (s.calls.set other call).get? callId = some call' at hcall'
  rw [get?_set] at hcall'
  split_ifs at hcall' with heq
  · rw [← some.inj hcall']
    exact hcall heq
  · exact h.stands call' hcall'

theorem Cleaning.abandon (h : Cleaning s callId ref) (other : ℕ) :
    Cleaning (s.abandon other) callId ref := by
  refine ⟨h.old, h.unreturned, fun call hcall => ?_⟩
  change (s.calls.erase other).get? callId = some call at hcall
  rw [get?_erase] at hcall
  split_ifs at hcall
  exact h.stands call hcall

theorem Cleaning.finish (h : Cleaning s callId ref) {other : ℕ} (hne : other ≠ callId)
    (result : Option W) {n : ℕ} (hn : s.nextCall ≤ n) :
    Cleaning { s.finish other result with nextCall := n } callId ref :=
  ⟨lt_of_lt_of_le h.old hn, (get?_set_ne _ _ hne).trans h.unreturned,
    (h.abandon other).stands⟩

theorem Cleaning.effect (h : Cleaning s callId ref) (hwell : WellFormed s)
    (hempty : (s.nodes ref).hasWorkers = false) (heffect : Effect s e s') :
    Cleaning s' callId ref ∨ Unfiled s' ref := by
  have hnext : s.nextCall ≠ callId := ne_of_gt h.old
  have hother : ∀ {other : ℕ} {call : RegistryCall W}, s.calls.get? other = some call →
      ¬ call.AfterRemoval ref → other ≠ callId := by
    rintro other call hcall hnot rfl
    exact hnot (h.stands call hcall)
  cases heffect with
  | idle => exact .inl h
  | obtained | missed | found =>
    exact .inl (h.setCall (fun heq => absurd heq hnext) (le_succ _))
  | absent => exact .inl (h.finish hnext none (le_succ _))
  | joined hcall => exact .inl (h.setCall (fun heq => absurd heq (hother hcall id)) (le_refl _))
  | @created _ instanceId _ _ hcall _ =>
    have hfile : Cleaning (s.fileInstance instanceId) callId ref := ⟨h.old, h.unreturned, h.stands⟩
    exact .inl (hfile.setCall (fun heq => absurd heq (hother hcall id)) (le_refl _))
  | @added _ _ workerId worker ref' hcall =>
    have hmap : Cleaning (s.mapNode ref' fun node => node.addWorker workerId worker) callId ref :=
      ⟨h.old, h.unreturned, h.stands⟩
    exact .inl (hmap.finish (hother hcall id) _ (le_refl _))
  | @removed _ _ workerId ref' hcall =>
    have hmap : Cleaning (s.mapNode ref' fun node => (node.removeWorker workerId).2) callId ref :=
      ⟨h.old, h.unreturned, h.stands⟩
    exact .inl (hmap.setCall (fun heq => absurd heq (hother hcall id)) (le_refl _))
  | @kept other instanceId workerId pc ref' removed hpc hcall hworkers =>
    refine .inl (h.finish (hother hcall ?_) _ (le_refl _))
    rcases hpc with rfl | rfl
    all_goals
      rintro rfl
      rw [hempty] at hworkers
      exact absurd hworkers (by simp)
  | emptied hcall =>
    refine .inl (h.setCall (fun heq => ?_) (le_refl _))
    subst heq
    have hstands := h.stands _ hcall
    exact hstands
  | @locked other _ _ _ _ hcall =>
    have hlock : Cleaning { s with writer := some other } callId ref :=
      ⟨h.old, h.unreturned, h.stands⟩
    refine .inl (hlock.setCall (fun heq => ?_) (le_refl _))
    subst heq
    have hstands := h.stands _ hcall
    exact hstands
  | @popped other instanceId workerId ref' removed hcall =>
    by_cases heq : ref' = ref
    · subst heq
      obtain ⟨hlt, hid⟩ := hwell.reached other _ hcall ref' rfl
      refine .inr ⟨hlt, fun instanceId' filed hfiled hsame => ?_⟩
      subst hsame
      change (s.instances.erase instanceId).get? instanceId' = some filed at hfiled
      rw [get?_erase] at hfiled
      split_ifs at hfiled with hne
      exact hne (hid.symm.trans (hwell.filed _ _ hfiled).2)
    · have hpop : Cleaning { s with instances := s.instances.erase instanceId, writer := none }
          callId ref := ⟨h.old, h.unreturned, h.stands⟩
      exact .inl (hpop.finish (hother hcall heq) _ (le_refl _))
  | timedOut => exact .inl (h.abandon _)

theorem Cleaning.of_removing (hwell : WellFormed s)
    (hcall : s.calls.get? callId = some (.deregister instanceId workerId (.removing ref))) :
    Cleaning (s.exec (.step callId)) callId ref := by
  simp only [exec, hcall, stepDeregister]
  refine ⟨hwell.callIds callId _ hcall, hwell.returned_of_call hcall, fun call hset => ?_⟩
  rw [← some.inj ((get?_set_self _ _ _).symm.trans hset)]
  exact rfl

theorem Cleaning.final {events : List (RegistryEvent W)} (h : Cleaning s callId ref)
    (hwell : WellFormed s) (hempty : ∀ mid last, events = mid ++ last →
      ((final exec s mid).nodes ref).hasWorkers = false) :
    Cleaning (final exec s events) callId ref ∨ Unfiled (final exec s events) ref := by
  induction events generalizing s with
  | nil => exact .inl h
  | cons e events ih =>
    rcases h.effect hwell (hempty [] (e :: events) rfl) (effect_exec s e) with hcleaning | hunfiled
    · apply ih hcleaning (hwell.exec e)
      rintro mid last rfl
      exact hempty (e :: mid) last rfl
    · exact .inr (invariant_final (s := s.exec e) (I := fun s => Unfiled s ref)
        (Q := fun _ _ => True) (fun s e h _ => h.effect (effect_exec s e)) hunfiled
        (along_of_forall (fun _ _ => trivial) _ _))

theorem emptiedLeave : EmptiedLeave events := by
  intro pre rest callId instanceId workerId ref hevents hcall hempty hreturned instanceId' hfiled
  subst hevents
  have hwell := wellFormed_final pre
  have hlast := (Cleaning.of_removing hwell hcall).final (hwell.exec _) fun mid last hrest => by
    have := hempty mid last hrest
    rw [final_append] at this
    exact this
  rw [final_append] at hreturned hfiled
  rcases hlast with hcleaning | hunfiled
  · exact hreturned hcleaning.unreturned
  · exact hunfiled.unfiled _ _ hfiled rfl

theorem registered_stays_of_safe {events : List (RegistryEvent W)}
    (hsafe : Execution.Along exec Safe create events) : WorkersStay events ∧ EmptiedLeave events :=
  ⟨workersStay_of_safe hsafe, emptiedLeave events⟩

def turnover : List (RegistryEvent String) :=
  [.registerWorker "i" 0 "first", .registerWorker "i" 1 "second", .step 0, .step 1, .step 0, .step 1,
    .deregisterWorker "i" 0, .registerWorker "i" 2 "third", .step 2, .step 3, .step 2]

theorem registered_stays_turnover : WorkersStay turnover ∧ EmptiedLeave turnover :=
  registered_stays_of_safe (by decide)

def orphaning : List (RegistryEvent String) :=
  [.registerWorker "i" 0 "first", .step 0, .step 0, .registerWorker "i" 1 "second",
    .deregisterWorker "i" 0, .step 2, .step 2, .step 2, .step 2, .step 1]

theorem not_workersStay_orphaning : ¬ WorkersStay orphaning := by
  intro h
  have hstay := h (orphaning.take 9) [] [] 1 "i" 1 "second" 0 rfl (by decide)
    (fun e he => absurd he List.not_mem_nil)
  exact absurd hstay (by decide)

end SharedRegistry

end LMCache
