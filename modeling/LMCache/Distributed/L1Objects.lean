import Mathlib.Logic.Function.Iterate
import LMCache.Distributed.L1Manager

namespace LMCache

open List

namespace L1Manager

variable {K R : Type} [DecidableEq K] (act : L1ObjectState → Verdict R)

def stepEntry : Option L1ObjectState → Option L1ObjectState
  | none => none
  | some entry =>
      match act entry with
      | .refuse _ => some entry
      | .keep entry' _ => some entry'
      | .drop _ => none

def replyOf (absent : R) (act : L1ObjectState → Verdict R) : Option L1ObjectState → R
  | none => absent
  | some entry =>
      match act entry with
      | .refuse reply => reply
      | .keep _ reply => reply
      | .drop reply => reply

def succeeds : Option L1ObjectState → Bool
  | none => false
  | some entry =>
      match act entry with
      | .refuse _ => false
      | .keep _ _ => true
      | .drop _ => true

variable {d : R} {f : L1ObjectState → Verdict R}

theorem visit_objects (p : KeyPass K R) (key k : K) :
    (visit d f p key).objects.get? k =
      if key = k then stepEntry f (p.objects.get? key) else p.objects.get? k := by
  cases he : p.objects.get? key with
  | none =>
    simp only [visit, he, stepEntry]
    split_ifs with hk
    · exact hk ▸ he
    · rfl
  | some e =>
    cases ha : f e with
    | refuse r =>
      simp only [visit, he, ha, stepEntry]
      split_ifs with hk
      · exact hk ▸ he
      · rfl
    | keep e' r => simp only [visit, he, ha, stepEntry, Dict.get?_set]
    | drop r => simp only [visit, he, ha, stepEntry, Dict.get?_erase]

theorem visit_ret (p : KeyPass K R) (key k : K) :
    (visit d f p key).ret.get? k =
      if key = k then some (replyOf d f (p.objects.get? key)) else p.ret.get? k := by
  cases he : p.objects.get? key with
  | none => simp only [visit, he, replyOf, Dict.get?_set]
  | some e =>
    cases ha : f e <;> simp only [visit, he, ha, replyOf, Dict.get?_set]

theorem visit_successfulKeys (p : KeyPass K R) (key : K) :
    (visit d f p key).successfulKeys =
      p.successfulKeys ++ if succeeds f (p.objects.get? key) then [key] else [] := by
  cases he : p.objects.get? key with
  | none => simp [visit, he, succeeds]
  | some e => cases ha : f e <;> simp [visit, he, ha, succeeds]

variable {keys : List K} {k : K}

theorem foldl_visit_of_not_mem (hk : k ∉ keys) (p : KeyPass K R) :
    (keys.foldl (visit d f) p).objects.get? k = p.objects.get? k ∧
      (keys.foldl (visit d f) p).ret.get? k = p.ret.get? k := by
  induction keys generalizing p with
  | nil => exact ⟨rfl, rfl⟩
  | cons key keys ih =>
    rw [mem_cons, not_or] at hk
    obtain ⟨hne, hrest⟩ := hk
    obtain ⟨hobj, hret⟩ := ih hrest (visit d f p key)
    have hne' : ¬ key = k := fun h => hne h.symm
    rw [foldl_cons, hobj, hret, visit_objects, visit_ret, if_neg hne', if_neg hne']
    exact ⟨rfl, rfl⟩

theorem keyPass_of_not_mem (hk : k ∉ keys) (objects : Dict K L1ObjectState) :
    (keyPass d f objects keys).objects.get? k = objects.get? k ∧
      (keyPass d f objects keys).ret.get? k = none :=
  foldl_visit_of_not_mem hk _

theorem foldl_visit_of_mem (hnodup : keys.Nodup) (hk : k ∈ keys) (p : KeyPass K R) :
    (keys.foldl (visit d f) p).objects.get? k = stepEntry f (p.objects.get? k) ∧
      (keys.foldl (visit d f) p).ret.get? k = some (replyOf d f (p.objects.get? k)) := by
  induction keys generalizing p with
  | nil => simp at hk
  | cons key keys ih =>
    obtain ⟨hnot, hrest⟩ := nodup_cons.mp hnodup
    rw [foldl_cons]
    rcases mem_cons.mp hk with rfl | hk
    · obtain ⟨hobj, hret⟩ := foldl_visit_of_not_mem hnot (visit d f p k)
      rw [hobj, hret, visit_objects, visit_ret, if_pos rfl, if_pos rfl]
      exact ⟨rfl, rfl⟩
    · have hne : ¬ key = k := by
        rintro rfl
        exact hnot hk
      obtain ⟨hobj, hret⟩ := ih hrest hk (visit d f p key)
      rw [hobj, hret, visit_objects, if_neg hne]
      exact ⟨rfl, rfl⟩

theorem keyPass_of_mem (hnodup : keys.Nodup) (hk : k ∈ keys) (objects : Dict K L1ObjectState) :
    (keyPass d f objects keys).objects.get? k = stepEntry f (objects.get? k) ∧
      (keyPass d f objects keys).ret.get? k = some (replyOf d f (objects.get? k)) :=
  foldl_visit_of_mem hnodup hk _

variable {Ψ : Option L1ObjectState → Prop} {p : KeyPass K R}

theorem foldl_visit_spec (hstep : ∀ o, Ψ o → Ψ (stepEntry f o)) (h0 : Ψ (p.objects.get? k)) :
    Ψ ((keys.foldl (visit d f) p).objects.get? k) ∧
      ∀ r, (keys.foldl (visit d f) p).ret.get? k = some r →
        p.ret.get? k = some r ∨ ∃ o, Ψ o ∧ r = replyOf d f o := by
  induction keys generalizing p with
  | nil => exact ⟨h0, fun r hr => .inl hr⟩
  | cons key keys ih =>
    have hvisit : Ψ ((visit d f p key).objects.get? k) := by
      rw [visit_objects]
      split_ifs with hk
      · subst hk
        exact hstep _ h0
      · exact h0
    obtain ⟨hobj, hret⟩ := ih hvisit
    refine ⟨hobj, fun r hr => ?_⟩
    rcases hret r hr with hold | hnew
    · rw [visit_ret] at hold
      split_ifs at hold with hk
      · subst hk
        exact .inr ⟨_, h0, (Option.some.inj hold).symm⟩
      · exact .inl hold
    · exact .inr hnew

theorem keyPass_spec (hstep : ∀ o, Ψ o → Ψ (stepEntry f o)) (keys : List K)
    {objects : Dict K L1ObjectState} (h0 : Ψ (objects.get? k)) :
    Ψ ((keyPass d f objects keys).objects.get? k) ∧
      ∀ r, (keyPass d f objects keys).ret.get? k = some r →
        ∃ o, Ψ o ∧ r = replyOf d f o := by
  obtain ⟨hobj, hret⟩ := foldl_visit_spec (d := d) hstep (p := ⟨objects, .empty, [], [], []⟩) h0
  exact ⟨hobj, fun r hr => (hret r hr).resolve_left (by simp)⟩

theorem keyPass_ret_isSome (hk : k ∈ keys) (objects : Dict K L1ObjectState) :
    ∃ r, (keyPass d f objects keys).ret.get? k = some r := by
  have key : ∀ p : KeyPass K R, (k ∈ keys ∨ ∃ r, p.ret.get? k = some r) →
      ∃ r, (keys.foldl (visit d f) p).ret.get? k = some r := by
    clear hk
    induction keys with
    | nil => exact fun p h => h.resolve_left (by simp)
    | cons key keys ih =>
      refine fun p h => ih _ ?_
      rw [visit_ret]
      by_cases hkey : key = k
      · exact .inr ⟨_, if_pos hkey⟩
      · rw [if_neg hkey]
        have hne : ¬ k = key := fun h => hkey h.symm
        simpa [hne] using h
  exact key _ (.inl hk)

theorem stepEntry_of_not_succeeds {o : Option L1ObjectState} (h : succeeds f o = false) :
    stepEntry f o = o := by
  cases o with
  | none => rfl
  | some e => cases ha : f e <;> simp_all [stepEntry, succeeds]

theorem mem_successfulKeys_foldl (p : KeyPass K R) :
    k ∈ (keys.foldl (visit d f) p).successfulKeys ↔
      k ∈ p.successfulKeys ∨ k ∈ keys ∧ succeeds f (p.objects.get? k) = true := by
  induction keys generalizing p with
  | nil => simp
  | cons key keys ih =>
    rw [foldl_cons, ih, visit_successfulKeys, visit_objects, mem_append, mem_cons]
    by_cases hk : key = k
    · subst hk
      cases hs : succeeds f (p.objects.get? key) with
      | true => simp
      | false => simp [stepEntry_of_not_succeeds hs, hs]
    · have hne : ¬ k = key := fun h => hk h.symm
      simp only [hk, hne, if_false, false_or]
      split_ifs <;> simp [hne]

theorem mem_successfulKeys (objects : Dict K L1ObjectState) :
    k ∈ (keyPass d f objects keys).successfulKeys ↔
      k ∈ keys ∧ succeeds f (objects.get? k) = true := by
  rw [keyPass, mem_successfulKeys_foldl]
  simp

def hits (act : L1ObjectState → Verdict R) : ℕ → Option L1ObjectState → ℕ
  | 0, _ => 0
  | n + 1, o => (if succeeds act o then 1 else 0) + hits act n (stepEntry act o)

theorem foldl_visit_count (keys : List K) (k : K) (p : KeyPass K R) :
    (keys.foldl (visit d f) p).objects.get? k = (stepEntry f)^[keys.count k] (p.objects.get? k) ∧
      (keys.foldl (visit d f) p).successfulKeys.count k =
        p.successfulKeys.count k + hits f (keys.count k) (p.objects.get? k) := by
  induction keys generalizing p with
  | nil => exact ⟨rfl, rfl⟩
  | cons key keys ih =>
    obtain ⟨hobj, hcount⟩ := ih (visit d f p key)
    rw [foldl_cons, hobj, hcount, visit_objects, visit_successfulKeys, count_append]
    by_cases hk : key = k
    · subst hk
      rw [if_pos rfl, count_cons_self, Function.iterate_succ_apply, hits]
      refine ⟨rfl, ?_⟩
      split_ifs
      · rw [count_singleton_self, Nat.add_assoc]
      · rw [count_nil, Nat.zero_add, Nat.add_zero]
    · have hnone : (if succeeds f (p.objects.get? key) = true then [key] else []).count k = 0 := by
        split_ifs
        · exact count_eq_zero_of_not_mem (by simpa using fun h : k = key => hk h.symm)
        · rfl
      rw [if_neg hk, hnone, count_cons_of_ne hk]
      exact ⟨rfl, rfl⟩

theorem keyPass_count (keys : List K) (k : K) (objects : Dict K L1ObjectState) :
    (keyPass d f objects keys).objects.get? k = (stepEntry f)^[keys.count k] (objects.get? k) ∧
      (keyPass d f objects keys).successfulKeys.count k =
        hits f (keys.count k) (objects.get? k) := by
  obtain ⟨hobj, hcount⟩ := foldl_visit_count (d := d) (f := f) keys k ⟨objects, .empty, [], [], []⟩
  exact ⟨hobj, hcount.trans (Nat.zero_add _)⟩

variable {objects : Dict K L1ObjectState}

theorem keyPass_of_not_succeeds (h : succeeds f (objects.get? k) = false) (keys : List K) :
    (keyPass d f objects keys).objects.get? k = objects.get? k := by
  have hstep : ∀ o, o = objects.get? k → stepEntry f o = objects.get? k := by
    rintro o rfl
    exact stepEntry_of_not_succeeds h
  exact (keyPass_spec (d := d) hstep keys rfl).1

theorem stepEntry_isSome_of_keeps (hdrop : ∀ e r, f e ≠ .drop r) (o : Option L1ObjectState) :
    (stepEntry f o).isSome = o.isSome := by
  cases o with
  | none => rfl
  | some e =>
    cases ha : f e with
    | refuse r => simp [stepEntry, ha]
    | keep e' r => simp [stepEntry, ha]
    | drop r => exact absurd ha (hdrop e r)

theorem keyPass_isSome_of_keeps (hdrop : ∀ e r, f e ≠ .drop r) (objects : Dict K L1ObjectState)
    (keys : List K) (k : K) :
    ((keyPass d f objects keys).objects.get? k).isSome = (objects.get? k).isSome :=
  (keyPass_spec (d := d) (Ψ := fun o => o.isSome = (objects.get? k).isSome)
    (fun o ho => (stepEntry_isSome_of_keeps hdrop o).trans ho) keys rfl).1

theorem foldl_visit_of_absent (h : p.objects.get? k = none) :
    (keys.foldl (visit d f) p).objects.get? k = none :=
  (foldl_visit_spec (d := d) (Ψ := fun o => o = none) (fun o ho => by rw [ho]; rfl) h).1

theorem keyPass_of_not_successful (hk : k ∉ (keyPass d f objects keys).successfulKeys) :
    (keyPass d f objects keys).objects.get? k = objects.get? k := by
  by_cases hmem : k ∈ keys
  · refine keyPass_of_not_succeeds (Bool.eq_false_iff.mpr fun hs => hk ?_) keys
    exact (mem_successfulKeys objects).mpr ⟨hmem, hs⟩
  · exact (keyPass_of_not_mem hmem objects).1

theorem isSome_of_successful (hk : k ∈ (keyPass d f objects keys).successfulKeys) :
    (objects.get? k).isSome = true := by
  obtain ⟨_, hs⟩ := (mem_successfulKeys objects).mp hk
  cases he : objects.get? k with
  | none => simp [he, succeeds] at hs
  | some e => rfl

theorem isSome_of_keyPass (h : ((keyPass d f objects keys).objects.get? k).isSome = true) :
    (objects.get? k).isSome = true := by
  cases he : objects.get? k with
  | none =>
    have habsent : (keyPass d f objects keys).objects.get? k = none := foldl_visit_of_absent he
    rw [habsent] at h
    exact h
  | some e => rfl

theorem mem_needToFreeKeys_foldl (p : KeyPass K R) :
    k ∈ (keys.foldl (visit d f) p).needToFreeKeys ↔
      k ∈ p.needToFreeKeys ∨ (p.objects.get? k).isSome = true ∧
        (keys.foldl (visit d f) p).objects.get? k = none := by
  induction keys generalizing p with
  | nil => cases h : p.objects.get? k <;> simp [h]
  | cons key keys ih =>
    rw [foldl_cons, ih]
    cases he : p.objects.get? key with
    | none => simp only [visit, he]
    | some e =>
      cases ha : f e with
      | refuse r => simp only [visit, he, ha]
      | keep e' r =>
        simp only [visit, he, ha, Dict.get?_set]
        split_ifs with hk
        · subst hk
          simp [he]
        · exact Iff.rfl
      | drop r =>
        by_cases hk : key = k
        · subst hk
          have habsent : (keys.foldl (visit d f) (visit d f p key)).objects.get? key = none :=
            foldl_visit_of_absent (by simp [visit, he, ha, Dict.get?_erase])
          exact iff_of_true (.inl (by simp [visit, he, ha])) (.inr ⟨by simp [he], habsent⟩)
        · have hne : ¬ k = key := fun h => hk h.symm
          simp [visit, he, ha, Dict.get?_erase, hk, hne]

theorem mem_needToFreeKeys (objects : Dict K L1ObjectState) :
    k ∈ (keyPass d f objects keys).needToFreeKeys ↔
      (objects.get? k).isSome = true ∧ (keyPass d f objects keys).objects.get? k = none := by
  rw [keyPass, mem_needToFreeKeys_foldl]
  simp

theorem foldl_visit_successfulKeys_of_drops (hkeep : ∀ e e' r, f e ≠ .keep e' r) (keys : List K)
    (h : p.successfulKeys = p.needToFreeKeys) :
    (keys.foldl (visit d f) p).successfulKeys = (keys.foldl (visit d f) p).needToFreeKeys := by
  induction keys generalizing p with
  | nil => exact h
  | cons key keys ih =>
    apply ih
    cases he : p.objects.get? key with
    | none => simp only [visit, he, h]
    | some e =>
      cases ha : f e with
      | refuse r => simp only [visit, he, ha, h]
      | keep e' r => exact absurd ha (hkeep e e' r)
      | drop r => simp only [visit, he, ha, h]

theorem keyPass_successfulKeys_of_drops (hkeep : ∀ e e' r, f e ≠ .keep e' r)
    (objects : Dict K L1ObjectState) (keys : List K) :
    (keyPass d f objects keys).successfulKeys = (keyPass d f objects keys).needToFreeKeys :=
  foldl_visit_successfulKeys_of_drops hkeep keys rfl

theorem finishReadKey_cases (now total : ℕ) (e : L1ObjectState) :
    finishReadKey now total e = .refuse .keyInWrongState ∨
    e.writeLock.isLocked now = false ∧ e.readLock.isLocked now = true ∧
      (finishReadKey now total e = .drop .success ∨
        finishReadKey now total e =
          .keep { e with readLock := e.readLock.unlockTimes total } .success) := by
  simp only [finishReadKey]
  split_ifs with hw hr hlast
  · exact .inl rfl
  · exact .inl rfl
  · exact .inr ⟨by simpa using hw, by simpa using hr, .inl rfl⟩
  · exact .inr ⟨by simpa using hw, by simpa using hr, .inr rfl⟩

theorem finishWriteKey_cases (now : ℕ) (e : L1ObjectState) :
    finishWriteKey now e = .refuse .keyInWrongState ∨
    e.writeLock.isLocked now = true ∧ e.readLock.isLocked now = false ∧
      finishWriteKey now e = .keep { e with writeLock := e.writeLock.unlock } .success := by
  simp only [finishWriteKey]
  split_ifs with hw hr
  · exact .inl rfl
  · exact .inl rfl
  · exact .inr ⟨by simpa using hw, by simpa using hr, rfl⟩

theorem finishWriteAndReserveReadKey_cases (now total : ℕ) (e : L1ObjectState) :
    finishWriteAndReserveReadKey now total e = .refuse (.keyInWrongState, none) ∨
    e.writeLock.isLocked now = true ∧ e.readLock.isLocked now = false ∧
      finishWriteAndReserveReadKey now total e =
        .keep
          { e with
            writeLock := e.writeLock.unlock
            readLock := e.readLock.lockTimes now total }
          (.success, some e.memoryObj) := by
  simp only [finishWriteAndReserveReadKey]
  split_ifs with hw hr
  · exact .inl rfl
  · exact .inl rfl
  · exact .inr ⟨by simpa using hw, by simpa using hr, rfl⟩

theorem deleteKey_cases (now : ℕ) (e : L1ObjectState) :
    deleteKey now e = .refuse .keyIsLocked ∨
    e.readLock.isLocked now = false ∧ e.writeLock.isLocked now = false ∧
      deleteKey now e = .drop .success := by
  simp only [deleteKey]
  split_ifs with h
  · exact .inl rfl
  · rw [Bool.or_eq_true, not_or, Bool.not_eq_true, Bool.not_eq_true] at h
    exact .inr ⟨h.1, h.2, rfl⟩

theorem get?_of_clear {m : L1Manager K} {now : ℕ} {force : Bool} {e : L1ObjectState}
    (he : (m.clear now force).objects.get? k = some e) : m.objects.get? k = some e := by
  unfold clear at he
  cases force with
  | true => simp [notify] at he
  | false =>
    simp only [Bool.false_eq_true, if_false] at he
    split_ifs at he <;> simp only [notify, Dict.get?_foldl_erase] at he <;>
      split_ifs at he <;> exact he

variable (m : L1Manager K)

theorem reserveReadPass_spec (now : ℕ) (keys : List K) (extraCount : ℤ) {e : L1ObjectState}
    (he : m.objects.get? k = some e) :
    ∀ r, (m.reserveReadPass now keys extraCount).ret.get? k = some r →
      r = if e.availableForRead now then (.success, some e.memoryObj) else (.keyNotReadable, none) := by
  have hstep : ∀ o, (∃ lock, o = some { e with readLock := lock }) →
      ∃ lock, stepEntry (reserveReadKey now (1 + validateExtraCount extraCount)) o =
        some { e with readLock := lock } := by
    rintro _ ⟨lock, rfl⟩
    by_cases havail : e.availableForRead now <;>
      simp_all [stepEntry, reserveReadKey, L1ObjectState.availableForRead]
  intro r hr
  obtain ⟨_, ⟨lock, rfl⟩, rfl⟩ := (keyPass_spec (d := (L1Error.keyNotExist, none)) hstep keys
    ⟨e.readLock, he⟩).2 r hr
  by_cases havail : e.availableForRead now <;>
    simp_all [replyOf, reserveReadKey, L1ObjectState.availableForRead]

theorem reserveReadPass_absent (now : ℕ) (keys : List K) (extraCount : ℤ)
    (he : m.objects.get? k = none) :
    ∀ r, (m.reserveReadPass now keys extraCount).ret.get? k = some r → r = (.keyNotExist, none) := by
  intro r hr
  obtain ⟨_, rfl, rfl⟩ := (keyPass_spec (Ψ := fun o => o = none)
    (f := reserveReadKey now (1 + validateExtraCount extraCount))
    (d := (L1Error.keyNotExist, none)) (fun o ho => by rw [ho]; rfl) keys he).2 r hr
  rfl

theorem stepEntry_unsafeReadKey (now : ℕ) (o : Option L1ObjectState) :
    stepEntry (unsafeReadKey now) o = o := by
  cases o with
  | none => rfl
  | some e =>
    simp only [stepEntry, unsafeReadKey]
    by_cases hread : e.readLock.isLocked now = true <;> simp [hread]

theorem get?_unsafeRead (now : ℕ) (keys : List K) (k : K) :
    (m.unsafeRead now keys).get? k =
      if k ∈ keys then some (replyOf (.keyNotExist, none) (unsafeReadKey now) (m.objects.get? k))
      else none := by
  split_ifs with hk
  · obtain ⟨r, hr⟩ := keyPass_ret_isSome (d := ((.keyNotExist, none) : L1OperationResult))
      (f := unsafeReadKey now) hk m.objects
    obtain ⟨o, ho, hreply⟩ := (keyPass_spec (k := k) (Ψ := fun o => o = m.objects.get? k)
      (fun o ho => (stepEntry_unsafeReadKey now o).trans ho) keys rfl).2 r hr
    rw [← ho, ← hreply]
    exact hr
  · exact (keyPass_of_not_mem hk m.objects).2

end L1Manager

end LMCache
