import LMCache.Distributed.Reservations

namespace LMCache

open Reservation L1Manager TTLLock Accounted List Verdict Nat

structure L1Clients (C K : Type) where
  manager : L1Manager K
  now : ℕ
  opened : List (Reservation C K)

inductive ClientStep (C K : Type) where
  | advance (ms : ℕ)
  | reserveRead (client : C) (keys : List K) (extraCount : ℤ)
  | reserveWrite (client : C) (granted : Bool) (keys : List K) (isTemporary : List Bool)
      (mode : WriteMode)
  | finishRead (client : C) (closed : List (Reservation C K)) (extraCount : ℤ)
  | finishWrite (client : C) (closed : List (Reservation C K))
  | finishWriteAndReserveRead (client : C) (closed : List (Reservation C K)) (extraCount : ℤ)
  | delete (keys : List K)
  | clear

namespace L1Clients

variable {C K : Type} [DecidableEq K]

def ttlMs (writeTtl readTtl : ℕ) : Access → ℕ
  | .read => readTtl * 1000
  | .write => writeTtl * 1000

variable (s : L1Clients C K)

def ttl : Access → ℕ :=
  ttlMs s.manager.writeTtlSeconds s.manager.readTtlSeconds

def init (writeTtl readTtl now : ℕ) : L1Clients C K :=
  ⟨L1Manager.init writeTtl readTtl, now, []⟩

def objAt (m : L1Manager K) (k : K) : MemoryObj :=
  ((m.objects.get? k).map L1ObjectState.memoryObj).getD 0

def opening (ttl : Access → ℕ) (objOf : K → MemoryObj) (now : ℕ) (client : C) (access : Access)
    (count : ℕ) (keys : List K) : List (Reservation C K) :=
  keys.map (fun k => ⟨client, k, objOf k, access, count, now, decide (ttl access = 0)⟩)

def refresh (objects : Dict K L1ObjectState) (now : ℕ) (r : Reservation C K) : Reservation C K :=
  let alive := match objects.get? r.key with
    | none => false
    | some e => decide (now < (lockOf r.access e).expirationMs)
  { r with lapsed := r.lapsed || !alive }

def writtenKeys (ret : Dict K L1OperationResult) : List K :=
  ret.keys.filter (fun k => decide ((ret.get? k).map Prod.fst = some .success))

def exec [DecidableEq C] (s : L1Clients C K) : ClientStep C K → L1Clients C K
  | .advance ms =>
      { s with
        now := s.now + ms
        opened := s.opened.map (refresh s.manager.objects (s.now + ms)) }
  | .reserveRead client keys extraCount =>
      let p := s.manager.reserveReadPass s.now keys extraCount
      { s with
        manager := (s.manager.reserveRead s.now keys extraCount).2
        opened := s.opened ++ opening s.ttl (objAt s.manager) s.now client .read
          (1 + validateExtraCount extraCount) p.successfulKeys }
  | .reserveWrite client granted keys isTemporary mode =>
      let (ret, m) := s.manager.reserveWrite s.now granted keys isTemporary mode
      { s with
        manager := m
        opened := s.opened ++ opening s.ttl (objAt m) s.now client .write 1 (writtenKeys ret) }
  | .finishRead _ closed extraCount =>
      { s with
        manager := (s.manager.finishRead s.now (closed.map Reservation.key) extraCount).2
        opened := s.opened.diff closed }
  | .finishWrite _ closed =>
      { s with
        manager := (s.manager.finishWrite s.now (closed.map Reservation.key)).2
        opened := s.opened.diff closed }
  | .finishWriteAndReserveRead client closed extraCount =>
      let keys := closed.map Reservation.key
      let p := s.manager.finishWriteAndReserveReadPass s.now keys extraCount
      { s with
        manager := (s.manager.finishWriteAndReserveRead s.now keys extraCount).2
        opened := s.opened.diff closed ++ opening s.ttl (objAt s.manager) s.now client .read
          (1 + validateExtraCount extraCount) p.successfulKeys }
  | .delete keys => { s with manager := (s.manager.delete s.now keys).2 }
  | .clear => { s with manager := s.manager.clear s.now false }

def Closes (client : C) (closed : List (Reservation C K)) (access : Access) : Prop :=
  closed.Subperm s.opened ∧ ∀ r ∈ closed, r.client = client ∧ r.access = access

def Disciplined : ClientStep C K → Prop
  | .finishRead client closed extraCount =>
      Closes s client closed .read ∧ ∀ r ∈ closed, r.count = 1 + validateExtraCount extraCount
  | .finishWrite client closed => Closes s client closed .write
  | .finishWriteAndReserveRead client closed _ => Closes s client closed .write
  | _ => True

def Stale (r : Reservation C K) : Prop :=
  r.lapsed = true ∧
    ∃ e, s.manager.objects.get? r.key = some e ∧ (lockOf r.access e).isLocked s.now = true

def Prompt : ClientStep C K → Prop
  | .finishRead _ closed _ => ∀ r ∈ closed, ¬ Stale s r
  | .finishWrite _ closed => ∀ r ∈ closed, ¬ Stale s r
  | .finishWriteAndReserveRead _ closed _ => ∀ r ∈ closed, ¬ Stale s r
  | _ => True

def Resident (r : Reservation C K) : Prop :=
  ∃ e, s.manager.objects.get? r.key = some e ∧ e.memoryObj = r.obj

def ReadsRefused (k : K) : Prop :=
  ∀ keys extraCount obj,
    (s.manager.reserveRead s.now keys extraCount).1.get? k ≠ some (.success, obj)

def WritesRefused (k : K) : Prop :=
  ∀ granted keys isTemporary mode obj,
    (s.manager.reserveWrite s.now granted keys isTemporary mode).1.get? k ≠ some (.success, obj)

def Exclusive : Prop :=
  ∀ r ∈ s.opened, s.now < r.since + s.ttl r.access →
    Resident s r ∧ WritesRefused s r.key ∧
      match r.access with
      | .write => ReadsRefused s r.key
      | .read => r.obj ∉ s.manager.memoryManager.freed

variable {ttl : Access → ℕ} {now total : ℕ} {objOf : K → MemoryObj} {client : C}

def Matches (objOf : K → MemoryObj) (k : K) (objects : Dict K L1ObjectState) : Prop :=
  ∀ e, objects.get? k = some e → objOf k = e.memoryObj

def NotStale (now : ℕ) (r : Reservation C K) (objects : Dict K L1ObjectState) : Prop :=
  r.lapsed = true → ∀ e, objects.get? r.key = some e → (lockOf r.access e).held now = 0

variable {act : L1ObjectState → Verdict R} {R ι : Type}

theorem preStable_matches (keyOf : ι → K)
    (hact : ∀ e e' reply, act e = .keep e' reply → e'.memoryObj = e.memoryObj) :
    Accounted.PreStable act (fun x objects => Matches objOf (keyOf x) objects) := by
  intro x objects k h
  refine ⟨fun e e' reply he ha d hd => ?_, fun d hd => ?_⟩
  · rw [Dict.get?_set] at hd
    split_ifs at hd with hk
    · rw [← Option.some.inj hd, hact e e' reply ha]
      exact h e (hk ▸ he)
    · exact h d hd
  · rw [Dict.get?_erase] at hd
    split_ifs at hd
    exact h d hd

theorem preStable_notStale {R : Type} {act : L1ObjectState → Verdict R} (a : Access)
    (hact : ∀ e e' reply, act e = .keep e' reply → (lockOf a e').held now ≤ (lockOf a e).held now) :
    Accounted.PreStable act
      (fun (r : Reservation C K) objects => r.access = a ∧ NotStale now r objects) := by
  intro r objects k ⟨hr, h⟩
  subst hr
  refine ⟨fun e e' reply he ha => ⟨rfl, fun hl d hd => ?_⟩, rfl, fun hl d hd => ?_⟩
  · rw [Dict.get?_set] at hd
    split_ifs at hd with hk
    · have := hact e e' reply ha
      have := h hl e (hk ▸ he)
      rw [← Option.some.inj hd]
      omega
    · exact h hl d hd
  · rw [Dict.get?_erase] at hd
    split_ifs at hd
    exact h hl d hd

theorem preStable_and {P Q : ι → Dict K L1ObjectState → Prop} (hP : Accounted.PreStable act P)
    (hQ : Accounted.PreStable act Q) :
    Accounted.PreStable act (fun x objects => P x objects ∧ Q x objects) :=
  fun x objects k h =>
    ⟨fun e e' reply he ha =>
      ⟨(hP x objects k h.1).1 e e' reply he ha, (hQ x objects k h.2).1 e e' reply he ha⟩,
      (hP x objects k h.1).2, (hQ x objects k h.2).2⟩

theorem preStable_const (P : ι → Prop) :
    Accounted.PreStable act (fun x (_ : Dict K L1ObjectState) => P x) :=
  fun _ _ _ h => ⟨fun _ _ _ _ _ => h, h⟩

def openOne (ttl : Access → ℕ) (objOf : K → MemoryObj) (now : ℕ) (client : C) (access : Access)
    (count : ℕ) (k : K) : List (Reservation C K) :=
  [⟨client, k, objOf k, access, count, now, decide (ttl access = 0)⟩]

omit [DecidableEq K] in
theorem flatMap_openOne (access : Access) (count : ℕ) (keys : List K) :
    keys.flatMap (openOne ttl objOf now client access count) =
      opening ttl objOf now client access count keys := by
  induction keys with
  | nil => rfl
  | cons k keys ih =>
    rw [flatMap_cons, ih]
    rfl

theorem load_openOne (access a : Access) (count : ℕ) (k : K) :
    load k a (openOne ttl objOf now client access count k) =
      if access = a ∧ ttl access ≠ 0 then count else 0 := by
  simp [openOne, load_cons]

variable {e : L1ObjectState} {access : Access}

omit [DecidableEq K] in
theorem opened_openOne {count : ℕ} {k : K} (hobj : objOf k = e.memoryObj) (hcount : 0 < count)
    (hexp : now + ttl access ≤ (lockOf access e).expirationMs) :
    ∀ r ∈ openOne ttl objOf now client access count k, Opened ttl now k e r := by
  intro r hr
  rw [mem_singleton.mp hr]
  exact ⟨rfl, hobj, rfl, hcount, hexp, rfl⟩

variable {objects : Dict K L1ObjectState} {mm : L1MemoryManager} {rs : List (Reservation C K)}

theorem load_read_lockTimes (h : Accounted ttl now objects mm rs) {k : K}
    (he : objects.get? k = some e) :
    load k .read rs + load k .read (openOne ttl objOf now client .read total k) ≤
      (e.readLock.lockTimes now total).held now := by
  rw [load_openOne]
  have httl : e.readLock.ttlMs = ttl .read := h.lockTtl k e he .read
  by_cases h0 : ttl .read = 0
  · rw [h.load_of_ttl_zero h0, if_neg (by simp [h0])]
    exact zero_le _
  · rw [if_pos ⟨rfl, h0⟩, held_lockTimes _ (by omega)]
    have : load k .read rs ≤ e.readLock.held now := h.covered k e .read he
    omega

theorem keepSound_reserveRead (client : C) (n : ℕ) :
    Accounted.KeepSound ttl now (reserveReadKey now (n + 1)) (fun k : K => k)
      (fun _ => []) (openOne ttl objOf now client .read (n + 1)) (Matches objOf) := by
  intro k objects mm rs e e' reply h hpre he ha
  simp only [reserveReadKey] at ha
  split_ifs at ha
  obtain ⟨rfl, _⟩ := keep.inj ha
  have httl : e.readLock.ttlMs = ttl .read := h.lockTtl k e he .read
  refine update h he rfl (fun a => ?_) (fun a => ?_) ?_ (fun a => ?_)
  · cases a <;> simp [lockOf]
  · cases a
    · exact .inr (by simp [lockOf, lockTimes_expirationMs, httl])
    · exact .inl le_rfl
  · exact opened_openOne (hpre e he) (succ_pos n)
      (by simp [lockOf, lockTimes_expirationMs, httl])
  · cases a
    · exact load_read_lockTimes h he
    · rw [load_openOne, if_neg (by simp)]
      exact h.covered k e .write he

theorem dropSound_of_keeps {keyOf : ι → K} {consumed : ι → List (Reservation C K)}
    {gained : K → List (Reservation C K)} {Pre : ι → Dict K L1ObjectState → Prop}
    (hact : ∀ e reply, act e ≠ .drop reply) :
    Accounted.DropSound ttl now act keyOf consumed gained Pre :=
  fun _ _ _ _ e reply _ _ _ ha => absurd ha (hact e reply)

variable {r : Reservation C K}

theorem not_lapsed (hpre : NotStale now r objects) (he : objects.get? r.key = some e)
    (hheld : 0 < (lockOf r.access e).held now) : r.lapsed = false := by
  by_contra hl
  have := hpre (by simpa using hl) e he
  omega

theorem load_closed (h : Accounted ttl now objects mm ([r] ++ rs)) (hpre : NotStale now r objects)
    (he : objects.get? r.key = some e) (hheld : 0 < (lockOf r.access e).held now) :
    r.count + load r.key r.access rs ≤ (lockOf r.access e).held now := by
  have := h.covered r.key e r.access he
  rwa [singleton_append, load_cons, if_pos ⟨rfl, rfl, not_lapsed hpre he hheld⟩] at this

def ClosingRead (now total : ℕ) (r : Reservation C K) (objects : Dict K L1ObjectState) : Prop :=
  (r.access = .read ∧ NotStale now r objects) ∧ r.count = total

theorem keepSound_finishRead :
    Accounted.KeepSound ttl now (finishReadKey now total)
      (fun r : Reservation C K => r.key) (fun r => [r]) (fun _ => []) (ClosingRead now total) := by
  intro r objects mm rs e e' reply h ⟨⟨haccess, hstale⟩, hcount⟩ he ha
  simp only [finishReadKey] at ha
  split_ifs at ha with hw hr
  obtain ⟨rfl, _⟩ := keep.inj ha
  have hheld : 0 < e.readLock.held now := by
    rw [← isLocked_iff]
    simpa using hr
  have hclosed := load_closed h hstale he (by rw [haccess]; exact hheld)
  refine update h.weaken_left he rfl (fun a => ?_) (fun a => .inl ?_) (by simp)
    (fun a => ?_)
  · cases a <;> simp [lockOf]
  · cases a <;> simp [lockOf]
  · cases a
    · rw [haccess, hcount] at hclosed
      simp only [lockOf, load_nil, held_unlockTimes] at hclosed ⊢
      omega
    · exact h.weaken_left.covered r.key e .write he

theorem dropSound_finishRead :
    Accounted.DropSound ttl now (finishReadKey now total)
      (fun r : Reservation C K => r.key) (fun r => [r]) (fun _ => []) (ClosingRead now total) := by
  intro r objects mm rs e reply h ⟨⟨haccess, hstale⟩, hcount⟩ he ha
  simp only [finishReadKey] at ha
  split_ifs at ha with hw hr hlast
  have hheld : 0 < e.readLock.held now := by
    rw [← isLocked_iff]
    simpa using hr
  have hclosed := load_closed h hstale he (by rw [haccess]; exact hheld)
  rw [haccess, hcount] at hclosed
  simp only [Bool.and_eq_true, Bool.not_eq_true', isLocked_eq_false_iff, held_unlockTimes] at hlast
  rw [Bool.not_eq_true, isLocked_eq_false_iff] at hw
  rw [append_nil]
  refine h.weaken_left.erase he fun a => ?_
  dsimp only
  cases a
  · simp only [lockOf] at hclosed
    omega
  · exact h.weaken_left.load_of_unheld he hw

def ClosingWrite (now : ℕ) (objOf : K → MemoryObj) (r : Reservation C K)
    (objects : Dict K L1ObjectState) : Prop :=
  (r.access = .write ∧ NotStale now r objects) ∧ Matches objOf r.key objects

theorem load_write_unlock (h : Accounted ttl now objects mm ([r] ++ rs))
    (haccess : r.access = .write) (hpre : NotStale now r objects) (he : objects.get? r.key = some e)
    (hheld : e.writeLock.isLocked now = true) :
    load r.key .write rs ≤ e.writeLock.unlock.held now := by
  rw [isLocked_iff] at hheld
  have hclosed := load_closed h hpre he (by rw [haccess]; exact hheld)
  have := h.countPos r (by simp)
  rw [haccess] at hclosed
  simp only [lockOf, held_unlock] at hclosed ⊢
  omega

theorem keepSound_finishWrite :
    Accounted.KeepSound ttl now (finishWriteKey now)
      (fun r : Reservation C K => r.key) (fun r => [r]) (fun _ => []) (ClosingWrite now objOf) := by
  intro r objects mm rs e e' reply h ⟨⟨haccess, hstale⟩, _⟩ he ha
  simp only [finishWriteKey] at ha
  split_ifs at ha with hw hr
  obtain ⟨rfl, _⟩ := keep.inj ha
  refine update h.weaken_left he rfl (fun a => ?_) (fun a => .inl ?_) (by simp)
    (fun a => ?_)
  · cases a <;> simp [lockOf]
  · cases a <;> simp [lockOf]
  · rw [load_nil, add_zero]
    cases a
    · exact h.weaken_left.covered r.key e .read he
    · exact load_write_unlock h haccess hstale he (by simpa using hw)

theorem keepSound_finishWriteAndReserveRead (client : C) (n : ℕ) :
    Accounted.KeepSound ttl now (finishWriteAndReserveReadKey now (n + 1))
      (fun r : Reservation C K => r.key) (fun r => [r])
      (openOne ttl objOf now client .read (n + 1)) (ClosingWrite now objOf) := by
  intro r objects mm rs e e' reply h ⟨⟨haccess, hstale⟩, hobj⟩ he ha
  simp only [finishWriteAndReserveReadKey] at ha
  split_ifs at ha with hw hr
  obtain ⟨rfl, _⟩ := keep.inj ha
  have httl : e.readLock.ttlMs = ttl .read := h.lockTtl r.key e he .read
  refine update h.weaken_left he rfl (fun a => ?_) (fun a => ?_) ?_ (fun a => ?_)
  · cases a <;> simp [lockOf]
  · cases a
    · exact .inr (by simp [lockOf, lockTimes_expirationMs, httl])
    · exact .inl (by simp [lockOf])
  · exact opened_openOne (hobj e he) (succ_pos n)
      (by simp [lockOf, lockTimes_expirationMs, httl])
  · cases a
    · exact load_read_lockTimes h.weaken_left he
    · rw [load_openOne, if_neg (by simp), add_zero]
      exact load_write_unlock h haccess hstale he (by simpa using hw)

theorem dropSound_delete :
    Accounted.DropSound ttl now (deleteKey now) (fun k : K => k)
      (fun _ => ([] : List (Reservation C K))) (fun _ => []) (fun _ _ => True) := by
  intro k objects mm rs e reply h _ he ha
  simp only [L1Manager.deleteKey] at ha
  split_ifs at ha with hlocked
  simp only [Bool.or_eq_true, not_or, Bool.not_eq_true, isLocked_eq_false_iff] at hlocked
  rw [append_nil]
  refine erase h he fun a => load_of_unheld h he ?_
  cases a
  · exact hlocked.1
  · exact hlocked.2

def Inv : Prop :=
  Accounted s.ttl s.now s.manager.objects s.manager.memoryManager s.opened

theorem inv_init (writeTtl readTtl now : ℕ) : Inv (init writeTtl readTtl now : L1Clients C K) := by
  refine ⟨?_, ?_, ?_, ?_, ?_, ?_, ?_, ?_, ?_, ?_⟩ <;> simp [init, L1Manager.init]

theorem reserveReadKey_ne_drop (now total : ℕ) (e : L1ObjectState) (reply : L1OperationResult) :
    L1Manager.reserveReadKey now total e ≠ .drop reply := by
  simp only [L1Manager.reserveReadKey]
  split_ifs <;> simp

variable {reply : L1OperationResult}

theorem reserveReadKey_memoryObj {e e' : L1ObjectState}
    (h : reserveReadKey now total e = .keep e' reply) : e'.memoryObj = e.memoryObj := by
  simp only [reserveReadKey] at h
  split_ifs at h
  rw [← (keep.inj h).1]

theorem matches_objAt (m : L1Manager K) (k : K) : Matches (objAt m) k m.objects := by
  intro e he
  simp [objAt, he]

theorem notStale_of_not_stale {s : L1Clients C K} (h : ¬ Stale s r) :
    NotStale s.now r s.manager.objects := by
  intro hl e he
  rw [← isLocked_eq_false_iff, ← Bool.not_eq_true]
  exact fun hlocked => h ⟨hl, e, he, hlocked⟩

theorem finishWriteKey_ne_drop (now : ℕ) (e : L1ObjectState) (reply : L1Error) :
    finishWriteKey now e ≠ .drop reply := by
  simp only [finishWriteKey]
  split_ifs <;> simp

theorem finishWriteAndReserveReadKey_ne_drop (now total : ℕ) (e : L1ObjectState)
    (reply : L1OperationResult) : finishWriteAndReserveReadKey now total e ≠ .drop reply := by
  simp only [finishWriteAndReserveReadKey]
  split_ifs <;> simp

theorem finishWriteKey_keep {e e' : L1ObjectState} {reply : L1Error}
    (h : finishWriteKey now e = .keep e' reply) :
    e'.memoryObj = e.memoryObj ∧ e'.writeLock = e.writeLock.unlock := by
  simp only [finishWriteKey] at h
  split_ifs at h
  rw [← (keep.inj h).1]
  exact ⟨rfl, rfl⟩

theorem finishWriteAndReserveReadKey_keep {e e' : L1ObjectState}
    (h : finishWriteAndReserveReadKey now total e = .keep e' reply) :
    e'.memoryObj = e.memoryObj ∧ e'.writeLock = e.writeLock.unlock := by
  simp only [finishWriteAndReserveReadKey] at h
  split_ifs at h
  rw [← (keep.inj h).1]
  exact ⟨rfl, rfl⟩

theorem preStable_closingWrite {R : Type} {act : L1ObjectState → Verdict R}
    (hact : ∀ e e' reply, act e = .keep e' reply →
      e'.memoryObj = e.memoryObj ∧ e'.writeLock = e.writeLock.unlock) :
    Accounted.PreStable act (ClosingWrite (C := C) now objOf) := by
  refine preStable_and (preStable_notStale .write fun e e' reply ha => ?_)
    (preStable_matches Reservation.key fun e e' reply ha => (hact e e' reply ha).1)
  simp only [lockOf, (hact e e' reply ha).2, held_unlock]
  exact sub_le _ _

theorem deleteKey_ne_keep (now : ℕ) (e e' : L1ObjectState) (reply : L1Error) :
    deleteKey now e ≠ .keep e' reply := by
  simp only [deleteKey]
  split_ifs <;> simp

theorem accounted_clear (h : Accounted ttl now objects mm rs) {items : List (K × L1ObjectState)}
    (hnodup : (items.map Prod.fst).Nodup)
    (hitems : ∀ p ∈ items, objects.get? p.1 = some p.2 ∧ isUnlocked now p.2 = true) :
    Accounted ttl now ((items.map Prod.fst).foldl Dict.erase objects)
      (mm.free (items.map (fun p => p.2.memoryObj))) rs := by
  induction items generalizing objects mm with
  | nil => simpa using h
  | cons p items ih =>
    obtain ⟨hnot, hrest⟩ := nodup_cons.mp hnodup
    obtain ⟨hget, hunlocked⟩ := hitems p mem_cons_self
    simp only [isUnlocked, Bool.not_eq_true', Bool.or_eq_false_iff,
      isLocked_eq_false_iff] at hunlocked
    have herased := h.erase hget fun a => h.load_of_unheld hget (by
      cases a
      · exact hunlocked.2
      · exact hunlocked.1)
    have hnext := ih herased hrest fun q hq => by
      obtain ⟨hq1, hq2⟩ := hitems q (mem_cons_of_mem _ hq)
      have hne : p.1 ≠ q.1 := fun heq => hnot (heq ▸ mem_map_of_mem hq)
      exact ⟨by rw [Dict.get?_erase, if_neg hne, hq1], hq2⟩
    rw [free_append] at hnext
    exact hnext

theorem refresh_lapsed :
    (refresh objects now r).lapsed = false ↔ r.lapsed = false ∧
      ∃ e, objects.get? r.key = some e ∧ now < (lockOf r.access e).expirationMs := by
  simp only [refresh]
  cases objects.get? r.key <;> simp

variable [DecidableEq C]

theorem Inv.reserveRead {s : L1Clients C K} (h : Inv s) (client : C) (keys : List K)
    (extraCount : ℤ) : Inv (s.exec (.reserveRead client keys extraCount)) := by
  have hstart : Accounted s.ttl s.now s.manager.objects s.manager.memoryManager
      (keys.flatMap (fun _ => []) ++ s.opened) := by
    rw [flatMap_eq_nil_iff.mpr fun _ _ => rfl]
    exact h
  have hpass := keyPass (d := (L1Error.keyNotExist, none))
    (keepSound_reserveRead client (validateExtraCount extraCount))
    (dropSound_of_keeps (reserveReadKey_ne_drop _ _))
    (preStable_matches (fun k : K => k) fun _ _ _ => reserveReadKey_memoryObj)
    (fun k _ => matches_objAt s.manager k) hstart
  rw [map_id', flatMap_openOne, add_comm] at hpass
  exact hpass.unfree

theorem perm_of_subperm {opened closed : List (Reservation C K)}
    (h : closed.Subperm opened) : opened.Perm (closed ++ opened.diff closed) :=
  (subperm_append_diff_self_of_count_le fun a _ => h.count_le a).symm

variable {closed : List (Reservation C K)}

theorem Inv.closing {s : L1Clients C K} (h : Inv s) (hclosed : Closes s client closed access) :
    Accounted s.ttl s.now s.manager.objects s.manager.memoryManager
      (closed.flatMap (fun r => [r]) ++ s.opened.diff closed) := by
  rw [flatMap_singleton']
  exact perm h (perm_of_subperm hclosed.1)

variable {extraCount : ℤ}

theorem Inv.finishRead {s : L1Clients C K} (h : Inv s) {client : C}
    {closed : List (Reservation C K)}
    (hclosed : Disciplined s (.finishRead client closed extraCount))
    (hprompt : Prompt s (.finishRead client closed extraCount)) :
    Inv (s.exec (.finishRead client closed extraCount)) := by
  obtain ⟨hcloses, hcount⟩ := hclosed
  have hstable : Accounted.PreStable (finishReadKey s.now (1 + validateExtraCount extraCount))
      (ClosingRead (C := C) (K := K) s.now (1 + validateExtraCount extraCount)) := by
    refine preStable_and (preStable_notStale .read fun e e' reply ha => ?_)
      (preStable_const (fun r : Reservation C K => r.count = 1 + validateExtraCount extraCount))
    simp only [finishReadKey] at ha
    split_ifs at ha
    rw [← (keep.inj ha).1]
    simp only [lockOf, held_unlockTimes]
    exact sub_le _ _
  have hpass := keyPass (d := L1Error.keyNotExist) keepSound_finishRead
    dropSound_finishRead hstable
    (fun r hr => ⟨⟨(hcloses.2 r hr).2, notStale_of_not_stale (hprompt r hr)⟩, hcount r hr⟩)
    (h.closing hcloses)
  rw [flatMap_eq_nil_iff.mpr fun _ _ => rfl, append_nil] at hpass
  exact hpass

theorem Inv.finishWrite {s : L1Clients C K} (h : Inv s)
    (hclosed : Disciplined s (.finishWrite client closed))
    (hprompt : Prompt s (.finishWrite client closed)) :
    Inv (s.exec (.finishWrite client closed)) := by
  have hpass := keyPass (d := L1Error.keyNotExist) keepSound_finishWrite
    (dropSound_of_keeps (finishWriteKey_ne_drop _))
    (preStable_closingWrite fun _ _ _ => finishWriteKey_keep)
    (fun r hr => ⟨⟨(hclosed.2 r hr).2, notStale_of_not_stale (hprompt r hr)⟩,
      matches_objAt s.manager r.key⟩)
    (h.closing hclosed)
  rw [flatMap_eq_nil_iff.mpr fun _ _ => rfl, append_nil] at hpass
  exact hpass.unfree

theorem Inv.finishWriteAndReserveRead {s : L1Clients C K} (h : Inv s)
    (hclosed : Disciplined s (.finishWriteAndReserveRead client closed extraCount))
    (hprompt : Prompt s (.finishWriteAndReserveRead client closed extraCount)) :
    Inv (s.exec (.finishWriteAndReserveRead client closed extraCount)) := by
  have hpass := keyPass (d := (L1Error.keyNotExist, none))
    (keepSound_finishWriteAndReserveRead client (validateExtraCount extraCount))
    (dropSound_of_keeps (finishWriteAndReserveReadKey_ne_drop _ _))
    (preStable_closingWrite fun _ _ _ => finishWriteAndReserveReadKey_keep)
    (fun r hr => ⟨⟨(hclosed.2 r hr).2, notStale_of_not_stale (hprompt r hr)⟩,
      matches_objAt s.manager r.key⟩)
    (h.closing hclosed)
  rw [flatMap_openOne, add_comm] at hpass
  exact hpass.unfree

theorem Inv.delete {s : L1Clients C K} (h : Inv s) (keys : List K) :
    Inv (s.exec (.delete keys)) := by
  have hstart : Accounted s.ttl s.now s.manager.objects s.manager.memoryManager
      (keys.flatMap (fun _ => []) ++ s.opened) := by
    rw [flatMap_eq_nil_iff.mpr fun _ _ => rfl]
    exact h
  have hpass := keyPass (d := L1Error.keyNotExist)
    (fun _ _ _ _ e e' reply _ _ _ ha => absurd ha (deleteKey_ne_keep s.now e e' reply))
    dropSound_delete (fun _ _ _ _ => ⟨fun _ _ _ _ _ => trivial, trivial⟩) (fun _ _ => trivial) hstart
  rw [map_id', flatMap_eq_nil_iff.mpr fun _ _ => rfl, append_nil] at hpass
  exact hpass

theorem Inv.clear {s : L1Clients C K} (h : Inv s) : Inv (s.exec .clear) := by
  have hnodup : ((s.manager.objects.items.filter
      (fun item => L1Manager.isUnlocked s.now item.2)).map Prod.fst).Nodup :=
    s.manager.objects.nodup.sublist (filter_sublist.map _)
  have hcleared := accounted_clear h hnodup fun p hp => by
    obtain ⟨hmem, hunlocked⟩ := mem_filter.mp hp
    exact ⟨(Dict.get?_eq_some_iff _ _ _).mpr hmem, hunlocked⟩
  simp only [exec, L1Manager.clear, Bool.false_eq_true, if_false]
  split_ifs <;> exact hcleared

theorem Inv.advance {s : L1Clients C K} (h : Inv s) (ms : ℕ) : Inv (s.exec (.advance ms)) := by
  have hmem : ∀ r ∈ s.opened.map (refresh s.manager.objects (s.now + ms)), ∃ r' ∈ s.opened,
      r = refresh s.manager.objects (s.now + ms) r' := by
    intro r hr
    obtain ⟨r', hr', rfl⟩ := mem_map.mp hr
    exact ⟨r', hr', rfl⟩
  refine ⟨h.lockTtl, h.resident, h.freedOld, h.distinct, fun r hr hl => ?_, fun k e a he => ?_,
    fun r hr hl => ?_, fun r hr => ?_, fun r hr => ?_, fun r hr hl => ?_⟩
  · obtain ⟨r', hr', rfl⟩ := hmem r hr
    exact h.backed r' hr' (refresh_lapsed.mp hl).1
  · simp only [exec] at he ⊢
    by_cases hexp : s.now + ms < (lockOf a e).expirationMs
    · have hheld : (lockOf a e).held (s.now + ms) = (lockOf a e).held s.now := by
        simp only [held]
        rw [if_pos hexp, if_pos (by omega)]
      rw [hheld]
      refine (load_map_le (f := refresh s.manager.objects (s.now + ms)) (fun _ => rfl)
        (fun _ => rfl) (fun _ => rfl) (fun r hl => ?_) _).trans (h.covered k e a he)
      simp [refresh, hl]
    · rw [load_eq_zero]
      · exact zero_le _
      · intro r hr hk ha
        obtain ⟨r', hr', rfl⟩ := hmem r hr
        by_contra hl
        obtain ⟨_, d, hd, hlt⟩ := refresh_lapsed.mp (by simpa using hl)
        rw [show r'.key = k from hk, he] at hd
        rw [← Option.some.inj hd, show r'.access = a from ha] at hlt
        exact hexp hlt
  · obtain ⟨r', hr', rfl⟩ := hmem r hr
    by_cases hold : r'.lapsed = true
    · have := h.expired r' hr' hold
      exact this.trans (le_add_right _ _)
    · obtain ⟨e, he, _, hexp⟩ := h.backed r' hr' (by simpa using hold)
      have hnot : ¬ s.now + ms < (lockOf r'.access e).expirationMs := fun hlt => by
        have := refresh_lapsed.mpr ⟨by simpa using hold, e, he, hlt⟩
        simp [this] at hl
      simp only [refresh, exec] at hexp ⊢
      exact hexp.trans (not_lt.mp hnot)
  · obtain ⟨r', hr', rfl⟩ := hmem r hr
    exact (h.sinceLe r' hr').trans (le_add_right _ _)
  · obtain ⟨r', hr', rfl⟩ := hmem r hr
    exact h.countPos r' hr'
  · obtain ⟨r', hr', rfl⟩ := hmem r hr
    exact h.ttlPos r' hr' (refresh_lapsed.mp hl).1

end L1Clients

end LMCache
