import Mathlib.Tactic.Linarith
import Mathlib.Algebra.BigOperators.Group.List.Basic
import LMCache.Foundations.Execution
import LMCache.Distributed.L1WriteReservation

namespace LMCache

open List L1Manager L1MemoryManager

inductive Access where
  | read
  | write
deriving DecidableEq, Repr

def lockOf : Access → L1ObjectState → TTLLock
  | .read, e => e.readLock
  | .write, e => e.writeLock

structure Reservation (C K : Type) where
  client : C
  key : K
  obj : MemoryObj
  access : Access
  count : ℕ
  since : ℕ
  lapsed : Bool
deriving DecidableEq, Repr

namespace Reservation

variable {C K : Type} [DecidableEq K]

def load (k : K) (a : Access) (rs : List (Reservation C K)) : ℕ :=
  (rs.map (fun r => if r.key = k ∧ r.access = a ∧ r.lapsed = false then r.count else 0)).sum

@[simp] theorem load_nil (k : K) (a : Access) : load k a ([] : List (Reservation C K)) = 0 := rfl

theorem load_cons (k : K) (a : Access) (r : Reservation C K) (rs : List (Reservation C K)) :
    load k a (r :: rs) =
      (if r.key = k ∧ r.access = a ∧ r.lapsed = false then r.count else 0) + load k a rs := by
  simp [load]

theorem load_append (k : K) (a : Access) (rs ss : List (Reservation C K)) :
    load k a (rs ++ ss) = load k a rs + load k a ss := by simp [load]

theorem load_perm {rs ss : List (Reservation C K)} (h : rs.Perm ss) (k : K) (a : Access) :
    load k a rs = load k a ss := (h.map _).sum_eq

theorem count_le_load {r : Reservation C K} {rs : List (Reservation C K)} (hr : r ∈ rs)
    (hl : r.lapsed = false) : r.count ≤ load r.key r.access rs := by
  induction rs with
  | nil => simp at hr
  | cons s rs ih =>
    rw [load_cons]
    rcases mem_cons.mp hr with rfl | hr
    · rw [if_pos ⟨rfl, rfl, hl⟩]
      omega
    · have := ih hr
      omega

theorem load_eq_zero {k : K} {a : Access} {rs : List (Reservation C K)}
    (h : ∀ r ∈ rs, r.key = k → r.access = a → r.lapsed = true) : load k a rs = 0 := by
  induction rs with
  | nil => rfl
  | cons r rs ih =>
    rw [load_cons, ih fun s hs => h s (by simp [hs]), if_neg]
    rintro ⟨hk, ha, hl⟩
    simp [h r (by simp) hk ha] at hl

theorem load_map_le {k : K} {a : Access} {f : Reservation C K → Reservation C K}
    (hkey : ∀ r, (f r).key = r.key) (haccess : ∀ r, (f r).access = r.access)
    (hcount : ∀ r, (f r).count = r.count) (hlapsed : ∀ r, r.lapsed = true → (f r).lapsed = true)
    (rs : List (Reservation C K)) : load k a (rs.map f) ≤ load k a rs := by
  induction rs with
  | nil => exact le_rfl
  | cons r rs ih =>
    rw [map_cons, load_cons, load_cons, hkey, haccess, hcount]
    split_ifs with h1 h2
    · omega
    · refine absurd ⟨h1.1, h1.2.1, ?_⟩ h2
      by_contra hl
      simp [hlapsed r (by simpa using hl)] at h1
    · omega
    · omega

end Reservation

open Reservation

variable {C K : Type}

structure Opened (ttl : Access → ℕ) (now : ℕ) (k : K) (e : L1ObjectState)
    (r : Reservation C K) : Prop where
  key : r.key = k
  obj : r.obj = e.memoryObj
  since : r.since = now
  count : 0 < r.count
  expiration : now + ttl r.access ≤ (lockOf r.access e).expirationMs
  lapsed : r.lapsed = decide (ttl r.access = 0)

structure Accounted (ttl : Access → ℕ) (now : ℕ) (objects : Dict K L1ObjectState)
    (mm : L1MemoryManager) (rs : List (Reservation C K)) [DecidableEq K] : Prop where
  lockTtl : ∀ k e, objects.get? k = some e → ∀ a, (lockOf a e).ttlMs = ttl a
  resident : ∀ k e, objects.get? k = some e → e.memoryObj < mm.created ∧ e.memoryObj ∉ mm.freed
  freedOld : ∀ obj ∈ mm.freed, obj < mm.created
  distinct : ∀ k k' e e', objects.get? k = some e → objects.get? k' = some e' →
    e.memoryObj = e'.memoryObj → k = k'
  backed : ∀ r ∈ rs, r.lapsed = false → ∃ e, objects.get? r.key = some e ∧ e.memoryObj = r.obj ∧
    r.since + ttl r.access ≤ (lockOf r.access e).expirationMs
  covered : ∀ k e a, objects.get? k = some e → load k a rs ≤ (lockOf a e).held now
  expired : ∀ r ∈ rs, r.lapsed = true → r.since + ttl r.access ≤ now
  sinceLe : ∀ r ∈ rs, r.since ≤ now
  countPos : ∀ r ∈ rs, 0 < r.count
  ttlPos : ∀ r ∈ rs, r.lapsed = false → 0 < ttl r.access

namespace Accounted

variable [DecidableEq K] {ttl : Access → ℕ} {now : ℕ} {objects : Dict K L1ObjectState}
  {mm : L1MemoryManager} {rs rs' : List (Reservation C K)}

theorem mono (h : Accounted ttl now objects mm rs) (hmem : ∀ r ∈ rs', r ∈ rs)
    (hload : ∀ k a, load k a rs' ≤ load k a rs) : Accounted ttl now objects mm rs' where
  lockTtl := h.lockTtl
  resident := h.resident
  freedOld := h.freedOld
  distinct := h.distinct
  backed r hr := h.backed r (hmem r hr)
  covered k e a he := (hload k a).trans (h.covered k e a he)
  expired r hr := h.expired r (hmem r hr)
  sinceLe r hr := h.sinceLe r (hmem r hr)
  countPos r hr := h.countPos r (hmem r hr)
  ttlPos r hr := h.ttlPos r (hmem r hr)

theorem perm (h : Accounted ttl now objects mm rs) (hp : rs.Perm rs') :
    Accounted ttl now objects mm rs' :=
  h.mono (fun _ hr => hp.mem_iff.mpr hr) fun k a => (load_perm hp k a).ge

variable {k : K}

theorem update (h : Accounted ttl now objects mm rs) {e e' : L1ObjectState}
    {new : List (Reservation C K)} (he : objects.get? k = some e)
    (hobj : e'.memoryObj = e.memoryObj) (httl : ∀ a, (lockOf a e').ttlMs = (lockOf a e).ttlMs)
    (hexp : ∀ a, (lockOf a e).expirationMs ≤ (lockOf a e').expirationMs ∨
      now + ttl a ≤ (lockOf a e').expirationMs) (hnew : ∀ r ∈ new, Opened ttl now k e' r)
    (hcov : ∀ a, load k a rs + load k a new ≤ (lockOf a e').held now) :
    Accounted ttl now (objects.set k e') mm (rs ++ new) := by
  have hget : ∀ k' d, (objects.set k e').get? k' = some d →
      (k = k' ∧ d = e') ∨ (k ≠ k' ∧ objects.get? k' = some d) := by
    intro k' d hd
    rw [Dict.get?_set] at hd
    split_ifs at hd with hk
    · exact .inl ⟨hk, (Option.some.inj hd).symm⟩
    · exact .inr ⟨hk, hd⟩
  have hobjOf : ∀ k' d, (objects.set k e').get? k' = some d →
      ∃ d', objects.get? k' = some d' ∧ d'.memoryObj = d.memoryObj := by
    intro k' d hd
    rcases hget k' d hd with ⟨rfl, rfl⟩ | ⟨_, hd⟩
    · exact ⟨e, he, hobj.symm⟩
    · exact ⟨d, hd, rfl⟩
  refine ⟨fun k' d hd a => ?_, fun k' d hd => ?_, h.freedOld, fun k₁ k₂ d₁ d₂ h₁ h₂ heq => ?_,
    fun r hr hl => ?_, fun k' d a hd => ?_, fun r hr hl => ?_, fun r hr => ?_, fun r hr => ?_,
    fun r hr hl => ?_⟩
  · rcases hget k' d hd with ⟨rfl, rfl⟩ | ⟨_, hd⟩
    · rw [httl a]
      exact h.lockTtl k e he a
    · exact h.lockTtl k' d hd a
  · obtain ⟨d', hd', hobj'⟩ := hobjOf k' d hd
    rw [← hobj']
    exact h.resident k' d' hd'
  · obtain ⟨d₁', hd₁, ho₁⟩ := hobjOf k₁ d₁ h₁
    obtain ⟨d₂', hd₂, ho₂⟩ := hobjOf k₂ d₂ h₂
    exact h.distinct k₁ k₂ d₁' d₂' hd₁ hd₂ (by rw [ho₁, ho₂, heq])
  · rcases mem_append.mp hr with hr | hr
    · obtain ⟨d, hd, hdobj, hdexp⟩ := h.backed r hr hl
      have hsince := h.sinceLe r hr
      by_cases hk : k = r.key
      · subst hk
        obtain rfl : e = d := Option.some.inj (he.symm.trans hd)
        refine ⟨e', Dict.get?_set_self _ _ _, hobj.trans hdobj, ?_⟩
        rcases hexp r.access with hle | hle <;> omega
      · exact ⟨d, by rw [Dict.get?_set_ne _ _ hk, hd], hdobj, hdexp⟩
    · have hopen := hnew r hr
      refine ⟨e', ?_, hopen.obj.symm, ?_⟩
      · rw [hopen.key, Dict.get?_set_self]
      · rw [hopen.since]
        exact hopen.expiration
  · rw [load_append]
    rcases hget k' d hd with ⟨rfl, rfl⟩ | ⟨hk, hd⟩
    · exact hcov a
    · have hzero : load k' a new = 0 := load_eq_zero fun r hr hrk _ =>
        absurd ((hnew r hr).key.symm.trans hrk) hk
      rw [hzero, Nat.add_zero]
      exact h.covered k' d a hd
  · rcases mem_append.mp hr with hr | hr
    · exact h.expired r hr hl
    · have hopen := hnew r hr
      have : ttl r.access = 0 := by simpa [hopen.lapsed] using hl
      rw [hopen.since, this]
      exact le_rfl
  · rcases mem_append.mp hr with hr | hr
    · exact h.sinceLe r hr
    · exact (hnew r hr).since.le
  · rcases mem_append.mp hr with hr | hr
    · exact h.countPos r hr
    · exact (hnew r hr).count
  · rcases mem_append.mp hr with hr | hr
    · exact h.ttlPos r hr hl
    · simpa [(hnew r hr).lapsed, Nat.pos_iff_ne_zero] using hl

variable {e : L1ObjectState}

theorem erase (h : Accounted ttl now objects mm rs) (he : objects.get? k = some e)
    (h0 : ∀ a, load k a rs = 0) :
    Accounted ttl now (objects.erase k) (mm.free [e.memoryObj]) rs := by
  have hget : ∀ k' d, (objects.erase k).get? k' = some d → k ≠ k' ∧ objects.get? k' = some d := by
    intro k' d hd
    rw [Dict.get?_erase] at hd
    split_ifs at hd with hk
    exact ⟨hk, hd⟩
  refine ⟨fun k' d hd => h.lockTtl k' d (hget k' d hd).2, fun k' d hd => ?_, fun obj hobj => ?_,
    fun k₁ k₂ d₁ d₂ h₁ h₂ => h.distinct k₁ k₂ d₁ d₂ (hget k₁ d₁ h₁).2 (hget k₂ d₂ h₂).2,
    fun r hr hl => ?_, fun k' d a hd => h.covered k' d a (hget k' d hd).2, h.expired, h.sinceLe,
    h.countPos, h.ttlPos⟩
  · obtain ⟨hk, hd⟩ := hget k' d hd
    obtain ⟨hlt, hfreed⟩ := h.resident k' d hd
    refine ⟨hlt, ?_⟩
    simp only [free, mem_append, mem_singleton, not_or]
    exact ⟨hfreed, fun heq => hk (h.distinct k k' e d he hd heq.symm)⟩
  · simp only [free, mem_append, mem_singleton] at hobj
    rcases hobj with hobj | rfl
    · exact h.freedOld obj hobj
    · exact (h.resident k e he).1
  · obtain ⟨d, hd, hdobj, hdexp⟩ := h.backed r hr hl
    have hk : k ≠ r.key := by
      rintro rfl
      have := count_le_load hr hl
      have := h.countPos r hr
      have := h0 r.access
      omega
    exact ⟨d, by rw [Dict.get?_erase, if_neg hk, hd], hdobj, hdexp⟩

theorem load_of_unheld (h : Accounted ttl now objects mm rs) {a : Access}
    (he : objects.get? k = some e) (h0 : (lockOf a e).held now = 0) : load k a rs = 0 := by
  have := h.covered k e a he
  omega

theorem load_of_absent (h : Accounted ttl now objects mm rs) (he : objects.get? k = none)
    (a : Access) : load k a rs = 0 := by
  refine load_eq_zero fun r hr hk _ => ?_
  by_contra hl
  obtain ⟨e, hsome, _⟩ := h.backed r hr (by simpa using hl)
  rw [hk, he] at hsome
  simp at hsome

theorem load_of_ttl_zero (h : Accounted ttl now objects mm rs) {a : Access} (h0 : ttl a = 0) (k : K) :
    load k a rs = 0 := by
  refine load_eq_zero fun r hr _ ha => ?_
  by_contra hl
  have := h.ttlPos r hr (by simpa using hl)
  rw [ha, h0] at this
  omega

theorem free_append (mm : L1MemoryManager) (xs ys : List MemoryObj) :
    (mm.free xs).free ys = mm.free (xs ++ ys) := by simp [free]

@[simp] theorem free_nil (mm : L1MemoryManager) : mm.free [] = mm := by
  simp [free]

theorem unfree {xs : List MemoryObj} (h : Accounted ttl now objects (mm.free xs) rs) :
    Accounted ttl now objects mm rs where
  lockTtl := h.lockTtl
  resident k e he :=
    ⟨(h.resident k e he).1, fun hmem => (h.resident k e he).2 (mem_append_left _ hmem)⟩
  freedOld obj hobj := h.freedOld obj (mem_append_left _ hobj)
  distinct := h.distinct
  backed := h.backed
  covered := h.covered
  expired := h.expired
  sinceLe := h.sinceLe
  countPos := h.countPos
  ttlPos := h.ttlPos

variable {R ι : Type} {d : R} {act : L1ObjectState → Verdict R} {keyOf : ι → K}
  {consumed : ι → List (Reservation C K)} {gained : K → List (Reservation C K)}
  {Pre : ι → Dict K L1ObjectState → Prop}

def KeepSound (ttl : Access → ℕ) (now : ℕ) (act : L1ObjectState → Verdict R) (keyOf : ι → K)
    (consumed : ι → List (Reservation C K)) (gained : K → List (Reservation C K))
    (Pre : ι → Dict K L1ObjectState → Prop) : Prop :=
  ∀ x objects mm rs e e' reply, Accounted ttl now objects mm (consumed x ++ rs) → Pre x objects →
    objects.get? (keyOf x) = some e → act e = .keep e' reply →
    Accounted ttl now (objects.set (keyOf x) e') mm (rs ++ gained (keyOf x))

def DropSound (ttl : Access → ℕ) (now : ℕ) (act : L1ObjectState → Verdict R) (keyOf : ι → K)
    (consumed : ι → List (Reservation C K)) (gained : K → List (Reservation C K))
    (Pre : ι → Dict K L1ObjectState → Prop) : Prop :=
  ∀ x objects mm rs e reply, Accounted ttl now objects mm (consumed x ++ rs) → Pre x objects →
    objects.get? (keyOf x) = some e → act e = .drop reply →
    Accounted ttl now (objects.erase (keyOf x)) (mm.free [e.memoryObj]) (rs ++ gained (keyOf x))

def PreStable (act : L1ObjectState → Verdict R) (Pre : ι → Dict K L1ObjectState → Prop) : Prop :=
  ∀ x objects k, Pre x objects →
    (∀ e e' reply, objects.get? k = some e → act e = .keep e' reply → Pre x (objects.set k e')) ∧
    Pre x (objects.erase k)

theorem weaken_left {ss : List (Reservation C K)} (h : Accounted ttl now objects mm (ss ++ rs)) :
    Accounted ttl now objects mm rs :=
  h.mono (fun _ hr => mem_append_right _ hr) fun k a => by
    rw [load_append]
    omega

variable {xs : List ι}

theorem visits (hkeep : KeepSound ttl now act keyOf consumed gained Pre)
    (hdrop : DropSound ttl now act keyOf consumed gained Pre) (hpre : PreStable act Pre)
    {p : KeyPass K R} (hxs : ∀ x ∈ xs, Pre x p.objects)
    (h : Accounted ttl now p.objects (mm.free p.needToFree)
      (xs.flatMap consumed ++ (rs ++ p.successfulKeys.flatMap gained))) :
    Accounted ttl now ((xs.map keyOf).foldl (visit d act) p).objects
      (mm.free ((xs.map keyOf).foldl (visit d act) p).needToFree)
      (rs ++ ((xs.map keyOf).foldl (visit d act) p).successfulKeys.flatMap gained) := by
  induction xs generalizing p with
  | nil => exact h
  | cons x xs ih =>
    rw [flatMap_cons, append_assoc] at h
    have hx := hxs x mem_cons_self
    have hrest : ∀ y ∈ xs, Pre y p.objects := fun y hy => hxs y (mem_cons_of_mem _ hy)
    simp only [map_cons, foldl_cons]
    cases he : p.objects.get? (keyOf x) with
    | none =>
      refine ih ?_ ?_ <;> simp only [visit, he]
      · exact hrest
      · exact h.weaken_left
    | some e =>
      cases ha : act e with
      | refuse reply =>
        refine ih ?_ ?_ <;> simp only [visit, he, ha]
        · exact hrest
        · exact h.weaken_left
      | keep e' reply =>
        have hkept := hkeep x p.objects _ _ e e' reply h hx he ha
        refine ih ?_ ?_ <;> simp only [visit, he, ha]
        · exact fun y hy => (hpre y p.objects (keyOf x) (hrest y hy)).1 e e' reply he ha
        · simpa using hkept
      | drop reply =>
        have hdropped := hdrop x p.objects _ _ e reply h hx he ha
        rw [free_append] at hdropped
        refine ih ?_ ?_ <;> simp only [visit, he, ha]
        · exact fun y hy => (hpre y p.objects (keyOf x) (hrest y hy)).2
        · simpa using hdropped

theorem keyPass (hkeep : KeepSound ttl now act keyOf consumed gained Pre)
    (hdrop : DropSound ttl now act keyOf consumed gained Pre) (hpre : PreStable act Pre)
    (hxs : ∀ x ∈ xs, Pre x objects) (h : Accounted ttl now objects mm (xs.flatMap consumed ++ rs)) :
    Accounted ttl now (keyPass d act objects (xs.map keyOf)).objects
      (mm.free (keyPass d act objects (xs.map keyOf)).needToFree)
      (rs ++ (keyPass d act objects (xs.map keyOf)).successfulKeys.flatMap gained) :=
  visits hkeep hdrop hpre (p := ⟨objects, .empty, [], [], []⟩) hxs (by simpa using h)

end Accounted

end LMCache
