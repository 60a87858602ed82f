import LMCache.Foundations.Dict

namespace LMCache

open Option List Dict

inductive PolicyKind where
  | lru
  | fifo
  | mru
  | lfu
deriving DecidableEq

structure CachePolicy (K : Type) where
  kind : PolicyKind
  keyToFreq : Dict K ℕ
  freqToKeys : List (ℕ × K)

namespace CachePolicy

variable {K V : Type} [DecidableEq K]

def init (kind : PolicyKind) : CachePolicy K := ⟨kind, empty, []⟩

def insertFreq (freq : ℕ) (key : K) : List (ℕ × K) → List (ℕ × K)
  | [] => [(freq, key)]
  | p :: ps =>
      if p = (freq, key) then p :: ps
      else if freq < p.1 then (freq, key) :: p :: ps
      else p :: insertFreq freq key ps

def setFreq (policy : CachePolicy K) (key : K) (freq : ℕ) (freqToKeys : List (ℕ × K)) :
    CachePolicy K :=
  { policy with
    keyToFreq := policy.keyToFreq.set key freq
    freqToKeys := insertFreq freq key freqToKeys }

def updateOnHit (policy : CachePolicy K) (key : K) (cacheDict : Dict K V) :
    Option (CachePolicy K × Dict K V) :=
  match policy.kind with
  | .lru | .mru => if cacheDict.contains key then some (policy, cacheDict.moveToEnd key) else none
  | .fifo => some (policy, cacheDict)
  | .lfu =>
      match policy.keyToFreq.get? key with
      | none => none
      | some currFreq =>
          if (currFreq, key) ∈ policy.freqToKeys then
            some (policy.setFreq key (currFreq + 1) (policy.freqToKeys.erase (currFreq, key)),
              cacheDict)
          else none

def updateOnPut (policy : CachePolicy K) (key : K) : CachePolicy K :=
  match policy.kind with
  | .lfu => policy.setFreq key 1 policy.freqToKeys
  | _ => policy

def forgetKey (policy : CachePolicy K) (freq : ℕ) (key : K) : CachePolicy K :=
  { policy with
    keyToFreq := policy.keyToFreq.erase key
    freqToKeys := policy.freqToKeys.erase (freq, key) }

def updateOnForceEvict (policy : CachePolicy K) (key : K) : Option (CachePolicy K) :=
  match policy.kind with
  | .lfu =>
      match policy.keyToFreq.get? key with
      | none => some policy
      | some freq => if (freq, key) ∈ policy.freqToKeys then some (policy.forgetKey freq key) else none
  | _ => some policy

def scanFreqs (canEvict : V → Bool) (cacheDict : Dict K V) :
    List (ℕ × K) → Option (Option (ℕ × K))
  | [] => some none
  | (freq, key) :: rest =>
      match cacheDict.get? key with
      | none => none
      | some v => if canEvict v then some (some (freq, key)) else scanFreqs canEvict cacheDict rest

def firstEvictable (canEvict : V → Bool) (items : List (K × V)) : Option K :=
  (items.find? fun p => canEvict p.2).map Prod.fst

def getEvictCandidates (policy : CachePolicy K) (canEvict : V → Bool) (cacheDict : Dict K V) :
    Option (Option K × CachePolicy K) :=
  match policy.kind with
  | .lru | .fifo => some (firstEvictable canEvict cacheDict.items, policy)
  | .mru => some (firstEvictable canEvict cacheDict.items.reverse, policy)
  | .lfu =>
      match scanFreqs canEvict cacheDict policy.freqToKeys with
      | none => none
      | some none => some (none, policy)
      | some (some (freq, key)) =>
          if policy.keyToFreq.contains key then some (some key, policy.forgetKey freq key) else none

def Tracks (policy : CachePolicy K) (key : K) : Prop :=
  policy.kind = .lfu →
    ∃ freq, policy.keyToFreq.get? key = some freq ∧ (freq, key) ∈ policy.freqToKeys

variable {policy policy' : CachePolicy K} {key key' : K} {freq : ℕ} {cacheDict cacheDict' : Dict K V}
  {canEvict : V → Bool}

theorem mem_insertFreq {p : ℕ × K} (freqToKeys : List (ℕ × K)) :
    p ∈ insertFreq freq key freqToKeys ↔ p = (freq, key) ∨ p ∈ freqToKeys := by
  induction freqToKeys with
  | nil => simp [insertFreq]
  | cons q freqToKeys ih =>
    rw [insertFreq]
    split_ifs with heq
    · rw [← heq, mem_cons]
      tauto
    · rw [mem_cons]
    · rw [mem_cons, mem_cons, ih]
      tauto

theorem Tracks.of_kind (h : policy.kind ≠ .lfu) (key : K) : policy.Tracks key :=
  fun hlfu => absurd hlfu h

theorem tracks_setFreq_self (policy : CachePolicy K) (key : K) (freq : ℕ)
    (freqToKeys : List (ℕ × K)) : (policy.setFreq key freq freqToKeys).Tracks key :=
  fun _ => ⟨freq, get?_set_self _ _ _, (mem_insertFreq _).mpr (.inl rfl)⟩

theorem Tracks.setFreq (h : policy.Tracks key') (hne : key' ≠ key) (freqToKeys : List (ℕ × K))
    (hkept : ∀ freq, (freq, key') ∈ policy.freqToKeys → (freq, key') ∈ freqToKeys) :
    (policy.setFreq key freq freqToKeys).Tracks key' := by
  intro hlfu
  obtain ⟨freq', hget, hmem⟩ := h hlfu
  refine ⟨freq', ?_, (mem_insertFreq _).mpr (.inr (hkept freq' hmem))⟩
  rw [CachePolicy.setFreq, get?_set_ne _ _ (fun heq => hne heq.symm)]
  exact hget

variable {freqToKeys : List (ℕ × K)}

theorem mem_erase_key {freq' : ℕ} (hne : key' ≠ key) (h : (freq', key') ∈ freqToKeys) :
    (freq', key') ∈ freqToKeys.erase (freq, key) :=
  (mem_erase_of_ne fun heq => hne (Prod.mk.inj heq).2).mpr h

theorem Tracks.forgetKey (h : policy.Tracks key') (hne : key' ≠ key) :
    (policy.forgetKey freq key).Tracks key' := by
  intro hlfu
  obtain ⟨freq', hget, hmem⟩ := h hlfu
  refine ⟨freq', ?_, mem_erase_key hne hmem⟩
  rw [CachePolicy.forgetKey, get?_erase, if_neg fun heq => hne heq.symm]
  exact hget

structure Hit (policy policy' : CachePolicy K) (cacheDict cacheDict' : Dict K V) : Prop where
  kind : policy'.kind = policy.kind
  get? : ∀ key, cacheDict'.get? key = cacheDict.get? key
  values : cacheDict'.values.Perm cacheDict.values
  tracks : ∀ key, policy.Tracks key → policy'.Tracks key

theorem updateOnHit_cases (h : policy.updateOnHit key cacheDict = some (policy', cacheDict')) :
    policy' = policy ∧ (cacheDict' = cacheDict ∨ cacheDict' = cacheDict.moveToEnd key) ∨
      cacheDict' = cacheDict ∧ ∃ freq, policy.keyToFreq.get? key = some freq ∧
        policy' = policy.setFreq key (freq + 1) (policy.freqToKeys.erase (freq, key)) := by
  rw [updateOnHit] at h
  split at h
  · split_ifs at h
    obtain ⟨rfl, rfl⟩ := Prod.mk.inj (some.inj h)
    exact .inl ⟨rfl, .inr rfl⟩
  · split_ifs at h
    obtain ⟨rfl, rfl⟩ := Prod.mk.inj (some.inj h)
    exact .inl ⟨rfl, .inr rfl⟩
  · obtain ⟨rfl, rfl⟩ := Prod.mk.inj (some.inj h)
    exact .inl ⟨rfl, .inl rfl⟩
  · split at h
    · cases h
    next freq hget =>
      split_ifs at h
      obtain ⟨rfl, rfl⟩ := Prod.mk.inj (some.inj h)
      exact .inr ⟨rfl, freq, hget, rfl⟩

theorem hit_of_updateOnHit (h : policy.updateOnHit key cacheDict = some (policy', cacheDict')) :
    Hit policy policy' cacheDict cacheDict' := by
  obtain ⟨rfl, rfl | rfl⟩ | ⟨rfl, freq, _, rfl⟩ := updateOnHit_cases h
  · exact ⟨rfl, fun _ => rfl, .refl _, fun _ h => h⟩
  · exact ⟨rfl, cacheDict.get?_moveToEnd key, cacheDict.values_moveToEnd_perm key, fun _ h => h⟩
  · refine ⟨rfl, fun _ => rfl, .refl _, fun key' htracks => ?_⟩
    rcases Classical.em (key' = key) with rfl | hne
    · exact tracks_setFreq_self _ _ _ _
    · exact htracks.setFreq hne _ fun _ hmem => mem_erase_key hne hmem

theorem kind_updateOnPut (policy : CachePolicy K) (key : K) :
    (policy.updateOnPut key).kind = policy.kind := by
  rw [updateOnPut]
  split <;> rfl

theorem tracks_updateOnPut_self (policy : CachePolicy K) (key : K) :
    (policy.updateOnPut key).Tracks key := by
  rw [updateOnPut]
  split
  · exact tracks_setFreq_self _ _ _ _
  · rename_i hkind
    exact .of_kind hkind key

theorem Tracks.updateOnPut (h : policy.Tracks key') (key : K) :
    (policy.updateOnPut key).Tracks key' := by
  rcases Classical.em (key' = key) with rfl | hne
  · exact tracks_updateOnPut_self policy key'
  · rw [CachePolicy.updateOnPut]
    split
    · exact h.setFreq hne _ fun _ hmem => hmem
    · exact h

theorem forceEvict_tracks (h : policy.updateOnForceEvict key = some policy') :
    policy'.kind = policy.kind ∧ ∀ key', key' ≠ key → policy.Tracks key' → policy'.Tracks key' := by
  rw [updateOnForceEvict] at h
  split at h
  · split at h
    · obtain rfl := some.inj h
      exact ⟨rfl, fun _ _ htracks => htracks⟩
    · split_ifs at h
      obtain rfl := some.inj h
      exact ⟨rfl, fun _ hne htracks => htracks.forgetKey hne⟩
  · obtain rfl := some.inj h
    exact ⟨rfl, fun _ _ htracks => htracks⟩

theorem scanFreqs_some (h : scanFreqs canEvict cacheDict freqToKeys = some (some (freq, key))) :
    ∃ v, cacheDict.get? key = some v ∧ canEvict v = true := by
  induction freqToKeys with
  | nil => exact absurd h (by simp [scanFreqs])
  | cons p freqToKeys ih =>
    obtain ⟨freq', key'⟩ := p
    rw [scanFreqs] at h
    cases hget : cacheDict.get? key' with
    | none => simp [hget] at h
    | some v =>
      rw [hget] at h
      dsimp only at h
      split_ifs at h with hevict
      · obtain ⟨rfl, rfl⟩ := Prod.mk.inj (some.inj (some.inj h))
        exact ⟨v, hget, hevict⟩
      · exact ih h

theorem scanFreqs_none (h : scanFreqs canEvict cacheDict freqToKeys = some none) {v : V}
    (hmem : (freq, key) ∈ freqToKeys) (hget : cacheDict.get? key = some v) :
    canEvict v = false := by
  induction freqToKeys with
  | nil => exact absurd hmem not_mem_nil
  | cons p freqToKeys ih =>
    obtain ⟨freq', key'⟩ := p
    rw [scanFreqs] at h
    cases hget' : cacheDict.get? key' with
    | none => simp [hget'] at h
    | some v' =>
      rw [hget'] at h
      dsimp only at h
      split_ifs at h with hevict
      · exact absurd h (by simp)
      · rcases mem_cons.mp hmem with heq | hrest
        · obtain ⟨_, rfl⟩ := Prod.mk.inj heq
          rw [hget] at hget'
          rw [some.inj hget']
          simpa using hevict
        · exact ih h hrest

variable {items : List (K × V)}

omit [DecidableEq K] in
theorem firstEvictable_some (h : firstEvictable canEvict items = some key) :
    ∃ v, (key, v) ∈ items ∧ canEvict v = true := by
  obtain ⟨p, hfind, rfl⟩ := map_eq_some_iff.mp h
  exact ⟨p.2, mem_of_find?_eq_some hfind, by simpa using find?_some hfind⟩

omit [DecidableEq K] in
theorem firstEvictable_none (h : firstEvictable canEvict items = none) {v : V}
    (hmem : (key, v) ∈ items) : canEvict v = false := by
  have hall := find?_eq_none.mp (map_eq_none_iff.mp h) (key, v) hmem
  simpa using hall

structure Candidate (policy policy' : CachePolicy K) (canEvict : V → Bool) (cacheDict : Dict K V)
    (key : K) : Prop where
  kind : policy'.kind = policy.kind
  stored : ∃ v, cacheDict.get? key = some v ∧ canEvict v = true
  tracks : ∀ key', key' ≠ key → policy.Tracks key' → policy'.Tracks key'

theorem candidate_of_getEvictCandidates
    (h : policy.getEvictCandidates canEvict cacheDict = some (some key, policy')) :
    Candidate policy policy' canEvict cacheDict key := by
  rw [getEvictCandidates] at h
  cases hkind : policy.kind with
  | lru | fifo =>
    rw [hkind] at h
    obtain ⟨hfirst, rfl⟩ := Prod.mk.inj (some.inj h)
    obtain ⟨v, hmem, hevict⟩ := firstEvictable_some hfirst
    exact ⟨rfl, ⟨v, (get?_eq_some_iff _ _ _).mpr hmem, hevict⟩, fun _ _ h => h⟩
  | mru =>
    rw [hkind] at h
    obtain ⟨hfirst, rfl⟩ := Prod.mk.inj (some.inj h)
    obtain ⟨v, hmem, hevict⟩ := firstEvictable_some hfirst
    rw [mem_reverse] at hmem
    exact ⟨rfl, ⟨v, (get?_eq_some_iff _ _ _).mpr hmem, hevict⟩, fun _ _ h => h⟩
  | lfu =>
    rw [hkind] at h
    dsimp only at h
    split at h
    · exact absurd h (by simp)
    · exact absurd h (by simp)
    · rename_i hscan
      split_ifs at h
      obtain ⟨heq, rfl⟩ := Prod.mk.inj (some.inj h)
      obtain rfl := some.inj heq
      exact ⟨rfl, scanFreqs_some hscan, fun _ hne htracks => htracks.forgetKey hne⟩

theorem none_of_getEvictCandidates
    (h : policy.getEvictCandidates canEvict cacheDict = some (none, policy')) :
    policy' = policy ∧ ∀ key v, policy.Tracks key → cacheDict.get? key = some v →
      canEvict v = false := by
  rw [getEvictCandidates] at h
  cases hkind : policy.kind with
  | lru | fifo =>
    rw [hkind] at h
    obtain ⟨hfirst, rfl⟩ := Prod.mk.inj (some.inj h)
    exact ⟨rfl, fun key v _ hget =>
      firstEvictable_none hfirst ((get?_eq_some_iff _ _ _).mp hget)⟩
  | mru =>
    rw [hkind] at h
    obtain ⟨hfirst, rfl⟩ := Prod.mk.inj (some.inj h)
    exact ⟨rfl, fun key v _ hget => firstEvictable_none hfirst
      (mem_reverse.mpr ((get?_eq_some_iff _ _ _).mp hget))⟩
  | lfu =>
    rw [hkind] at h
    dsimp only at h
    split at h
    · exact absurd h (by simp)
    · rename_i hscan
      obtain ⟨_, rfl⟩ := Prod.mk.inj (some.inj h)
      refine ⟨rfl, fun key v htracks hget => ?_⟩
      obtain ⟨freq, _, hmem⟩ := htracks hkind
      exact scanFreqs_none hscan hmem hget
    · split_ifs at h
      exact absurd (Prod.mk.inj (some.inj h)).1 (by simp)

def Consistent (policy : CachePolicy K) : Prop :=
  ∀ key freq, policy.keyToFreq.get? key = some freq → (freq, key) ∈ policy.freqToKeys

theorem consistent_init (kind : PolicyKind) : (init kind : CachePolicy K).Consistent :=
  fun _ _ h => absurd h (by simp [init])

theorem Consistent.setFreq (h : policy.Consistent) (freqToKeys : List (ℕ × K))
    (hkept : ∀ freq key', key' ≠ key → (freq, key') ∈ policy.freqToKeys → (freq, key') ∈ freqToKeys) :
    (policy.setFreq key freq freqToKeys).Consistent := by
  intro key' freq' hget
  rw [CachePolicy.setFreq, get?_set] at hget
  split_ifs at hget with heq
  · obtain rfl := some.inj hget
    exact (mem_insertFreq _).mpr (.inl (heq ▸ rfl))
  · exact (mem_insertFreq _).mpr (.inr (hkept freq' key' (fun h => heq h.symm) (h key' freq' hget)))

theorem Consistent.forgetKey (h : policy.Consistent) (freq : ℕ) (key : K) :
    (policy.forgetKey freq key).Consistent := by
  intro key' freq' hget
  rw [CachePolicy.forgetKey, get?_erase] at hget
  split_ifs at hget with heq
  exact mem_erase_key (fun h => heq h.symm) (h key' freq' hget)

theorem Consistent.updateOnPut (h : policy.Consistent) (key : K) :
    (policy.updateOnPut key).Consistent := by
  rw [CachePolicy.updateOnPut]
  split
  · exact h.setFreq _ fun _ _ _ hmem => hmem
  · exact h

theorem Consistent.updateOnHit (h : policy.Consistent)
    (hhit : policy.updateOnHit key cacheDict = some (policy', cacheDict')) : policy'.Consistent := by
  obtain ⟨rfl, _⟩ | ⟨_, freq, _, rfl⟩ := updateOnHit_cases hhit
  · exact h
  · exact h.setFreq _ fun _ _ hne hmem => mem_erase_key hne hmem

theorem Consistent.isSome_updateOnForceEvict (h : policy.Consistent) (key : K) :
    ∃ policy', policy.updateOnForceEvict key = some policy' := by
  rw [CachePolicy.updateOnForceEvict]
  split
  · cases hget : policy.keyToFreq.get? key with
    | none => exact ⟨_, rfl⟩
    | some freq => exact ⟨_, if_pos (h key freq hget)⟩
  · exact ⟨_, rfl⟩

structure Forgets (policy policy' : CachePolicy K) : Prop where
  kind : policy'.kind = policy.kind
  freqs : ∀ key freq, policy'.keyToFreq.get? key = some freq → policy.keyToFreq.get? key = some freq
  consistent : policy.Consistent → policy'.Consistent
  same : policy.kind ≠ .lfu → policy' = policy

theorem Forgets.refl (policy : CachePolicy K) : Forgets policy policy :=
  ⟨rfl, fun _ _ h => h, fun h => h, fun _ => rfl⟩

theorem Forgets.trans {policy'' : CachePolicy K} (h : Forgets policy policy')
    (h' : Forgets policy' policy'') : Forgets policy policy'' where
  kind := h'.kind.trans h.kind
  freqs key freq hget := h.freqs key freq (h'.freqs key freq hget)
  consistent hc := h'.consistent (h.consistent hc)
  same hkind := (h'.same (h.kind ▸ hkind)).trans (h.same hkind)

theorem forgets_forgetKey (hlfu : policy.kind = .lfu) (freq : ℕ) (key : K) :
    Forgets policy (policy.forgetKey freq key) := by
  refine ⟨rfl, fun key' freq' hget => ?_, fun h => h.forgetKey freq key, fun h => absurd hlfu h⟩
  rw [forgetKey, get?_erase] at hget
  split_ifs at hget
  exact hget

theorem forgets_updateOnForceEvict (h : policy.updateOnForceEvict key = some policy') :
    Forgets policy policy' := by
  rw [updateOnForceEvict] at h
  split at h
  · rename_i hlfu
    split at h
    · obtain rfl := some.inj h
      exact .refl policy
    · split_ifs at h
      obtain rfl := some.inj h
      exact forgets_forgetKey hlfu _ key
  · obtain rfl := some.inj h
    exact .refl policy

theorem forgets_getEvictCandidates {found : Option K}
    (h : policy.getEvictCandidates canEvict cacheDict = some (found, policy')) :
    Forgets policy policy' ∧ (policy.kind = .lfu → ∀ key, found = some key →
      policy.keyToFreq.contains key = true ∧ policy'.keyToFreq.get? key = none) := by
  rw [getEvictCandidates] at h
  cases hkind : policy.kind with
  | lru | fifo | mru =>
    rw [hkind] at h
    obtain ⟨_, rfl⟩ := Prod.mk.inj (some.inj h)
    exact ⟨.refl policy, fun hlfu => absurd hlfu (by simp)⟩
  | lfu =>
    rw [hkind] at h
    dsimp only at h
    split at h
    · exact absurd h (by simp)
    · obtain ⟨rfl, rfl⟩ := Prod.mk.inj (some.inj h)
      exact ⟨.refl policy, fun _ key hkey => absurd hkey (by simp)⟩
    · rename_i freq key _
      split_ifs at h with hcontains
      obtain ⟨rfl, rfl⟩ := Prod.mk.inj (some.inj h)
      refine ⟨forgets_forgetKey hkind freq key, fun _ key' hkey => ?_⟩
      obtain rfl := some.inj hkey
      exact ⟨hcontains, by rw [forgetKey, get?_erase, if_pos rfl]⟩

end CachePolicy

end LMCache
