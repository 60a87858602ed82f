import LMCache.Foundations.Execution
import LMCache.StorageBackend.LFUBuckets

namespace LMCache

open Option Dict

inductive PolicyCall (K V : Type) where
  | updateOnHit (key : K) (cacheDict : Dict K V)
  | updateOnPut (key : K)
  | updateOnForceEvict (key : K)
  | getEvictCandidates (canEvict : V → Bool) (cacheDict : Dict K V)

variable {K V S : Type}

section Calls

variable [DecidableEq K]

def PolicyCall.Fits (found : Option K) : PolicyCall K V → Prop
  | .getEvictCandidates canEvict cacheDict =>
      (∀ key, found = some key → ∃ v, cacheDict.get? key = some v ∧ canEvict v = true) ∧
        (found = none → ∀ key v, cacheDict.get? key = some v → canEvict v = false)
  | _ => True

inductive Follows (after : S → PolicyCall K V → Option (Option K × S)) :
    S → List (PolicyCall K V) → S → Prop where
  | nil (s : S) : Follows after s [] s
  | cons {s s' s'' : S} {call : PolicyCall K V} {calls : List (PolicyCall K V)} {found : Option K}
      (hafter : after s call = some (found, s')) (hfits : call.Fits found)
      (hrest : Follows after s' calls s'') : Follows after s (call :: calls) s''

variable {after : S → PolicyCall K V → Option (Option K × S)} {s s' s'' : S}
  {call : PolicyCall K V} {calls calls' : List (PolicyCall K V)} {found : Option K}

theorem Follows.single (found : Option K) (hafter : after s call = some (found, s')) (hfits : call.Fits found) :
    Follows after s [call] s' :=
  .cons hafter hfits (.nil s')

theorem Follows.append (h : Follows after s calls s') (h' : Follows after s' calls' s'') :
    Follows after s (calls ++ calls') s'' := by
  induction h with
  | nil s => exact h'
  | cons hafter hfits _ ih => exact .cons hafter hfits (ih h')

theorem Follows.foldlM_eq (h : Follows after s calls s') :
    calls.foldlM (fun s call => (after s call).map Prod.snd) s = some s' := by
  induction h with
  | nil s => rfl
  | cons hafter _ _ ih =>
    rw [List.foldlM_cons, hafter]
    exact ih

def runCalls {B L : Type} (exec : B → L → B) (calls : B → L → List (PolicyCall K V)) :
    B → List L → List (PolicyCall K V)
  | _, [] => []
  | st, l :: ls => calls st l ++ runCalls exec calls (exec st l) ls

theorem follows_run {B L : Type} {exec : B → L → B} {calls : B → L → List (PolicyCall K V)}
    {p : B → S} {I : B → Prop} {Q : B → L → Prop}
    (hstep : ∀ st l, I st → Q st l →
      Follows after (p st) (calls st l) (p (exec st l)) ∧ I (exec st l))
    {st : B} {ls : List L} (h0 : I st) (hq : Execution.Along exec Q st ls) :
    Follows after (p st) (runCalls exec calls st ls) (p (Execution.final exec st ls)) := by
  induction ls generalizing st with
  | nil => exact .nil _
  | cons l ls ih =>
    obtain ⟨hfollows, hnext⟩ := hstep st l h0 hq.1
    exact hfollows.append (ih hnext hq.2)

end Calls

namespace CachePolicy

variable [DecidableEq K]

def after (policy : CachePolicy K) : PolicyCall K V → Option (Option K × CachePolicy K)
  | .updateOnHit key cacheDict => (policy.updateOnHit key cacheDict).map fun hit => (none, hit.1)
  | .updateOnPut key => some (none, policy.updateOnPut key)
  | .updateOnForceEvict key => (policy.updateOnForceEvict key).map fun policy => (none, policy)
  | .getEvictCandidates canEvict cacheDict => policy.getEvictCandidates canEvict cacheDict

end CachePolicy

namespace LFUCachePolicy

variable [DecidableEq K]

def after (lfu : LFUCachePolicy K) : PolicyCall K V → Option (Option K × LFUCachePolicy K)
  | .updateOnHit key _ => (lfu.updateOnHit key).map fun lfu => (none, lfu)
  | .updateOnPut key => some (none, lfu.updateOnPut key)
  | .updateOnForceEvict key => (lfu.updateOnForceEvict key).map fun lfu => (none, lfu)
  | .getEvictCandidates canEvict cacheDict => lfu.getEvictCandidates canEvict cacheDict

variable {lfu lfu' : LFUCachePolicy K} {found : Option K} {call : PolicyCall K V}
  {calls : List (PolicyCall K V)} {policy policy' : CachePolicy K}

theorem flat_after (h : lfu.WellFormed) (call : PolicyCall K V) :
    lfu.flat.after call = (lfu.after call).map fun answer => (answer.1, answer.2.flat) := by
  cases call with
  | updateOnHit key cacheDict =>
    rw [CachePolicy.after, after, flat_updateOnHit h, map_map, map_map]
    rfl
  | updateOnPut key =>
    rw [CachePolicy.after, after, ← flat_updateOnPut h]
    rfl
  | updateOnForceEvict key =>
    rw [CachePolicy.after, after, flat_updateOnForceEvict h, map_map, map_map]
    rfl
  | getEvictCandidates canEvict cacheDict => exact flat_getEvictCandidates h canEvict cacheDict

theorem WellFormed.after (h : lfu.WellFormed) (hafter : lfu.after call = some (found, lfu')) :
    lfu'.WellFormed := by
  cases call with
  | updateOnHit key cacheDict =>
    obtain ⟨hit, hhit, heq⟩ := map_eq_some_iff.mp hafter
    obtain ⟨_, rfl⟩ := Prod.mk.inj heq
    exact h.updateOnHit hhit
  | updateOnPut key =>
    obtain ⟨_, rfl⟩ := Prod.mk.inj (some.inj hafter)
    exact h.updateOnPut key
  | updateOnForceEvict key =>
    obtain ⟨evicted, hevicted, heq⟩ := map_eq_some_iff.mp hafter
    obtain ⟨_, rfl⟩ := Prod.mk.inj heq
    exact h.updateOnForceEvict hevicted
  | getEvictCandidates canEvict cacheDict => exact h.getEvictCandidates hafter

theorem follows_buckets (h : Follows CachePolicy.after policy calls policy')
    (hwell : lfu.WellFormed) (hflat : lfu.flat = policy) :
    ∃ lfu', Follows after lfu calls lfu' ∧ lfu'.WellFormed ∧ lfu'.flat = policy' := by
  induction h generalizing lfu with
  | nil policy => exact ⟨lfu, .nil lfu, hwell, hflat⟩
  | cons hafter hfits _ ih =>
    rw [← hflat, flat_after hwell] at hafter
    obtain ⟨answer, hanswer, heq⟩ := map_eq_some_iff.mp hafter
    obtain ⟨rfl, hnext⟩ := Prod.mk.inj heq
    obtain ⟨lfu', hrest, hwell', hflat'⟩ := ih (hwell.after hanswer) hnext
    exact ⟨lfu', .cons hanswer hfits hrest, hwell', hflat'⟩

end LFUCachePolicy

namespace CachePolicy

variable [DecidableEq K] {policy policy' : CachePolicy K} {key key' : K} {freq : ℕ}
  {freqToKeys : List (ℕ × K)} {canEvict : V → Bool} {cacheDict cacheDict' : Dict K V}
  {waiting waiting' : K → Prop}

section Exact

structure Exact (policy : CachePolicy K) : Prop where
  sorted : policy.freqToKeys.Pairwise fun p q => p.1 ≤ q.1
  nodup : policy.freqToKeys.Nodup
  mem_iff : ∀ freq key, (freq, key) ∈ policy.freqToKeys ↔ policy.keyToFreq.get? key = some freq

theorem exact_init (kind : PolicyKind) : (init kind : CachePolicy K).Exact where
  sorted := .nil
  nodup := List.nodup_nil
  mem_iff _ _ := ⟨fun h => absurd h List.not_mem_nil, fun h => nomatch h⟩

theorem Exact.consistent (h : policy.Exact) : policy.Consistent :=
  fun key freq hget => (h.mem_iff freq key).mpr hget

theorem sorted_insertFreq (h : freqToKeys.Pairwise fun p q => p.1 ≤ q.1) :
    (insertFreq freq key freqToKeys).Pairwise fun p q => p.1 ≤ q.1 := by
  induction freqToKeys with
  | nil => exact List.pairwise_singleton _ _
  | cons p freqToKeys ih =>
    obtain ⟨hhead, htail⟩ := List.pairwise_cons.mp h
    rw [insertFreq]
    split_ifs with heq hlt
    · exact h
    · refine List.pairwise_cons.mpr ⟨fun q hq => ?_, h⟩
      rcases List.mem_cons.mp hq with rfl | hq
      · exact hlt.le
      · exact hlt.le.trans (hhead q hq)
    · refine List.pairwise_cons.mpr ⟨fun q hq => ?_, ih htail⟩
      rcases (mem_insertFreq freqToKeys).mp hq with rfl | hq
      · exact Nat.not_lt.mp hlt
      · exact hhead q hq

theorem nodup_insertFreq (hsorted : freqToKeys.Pairwise fun p q => p.1 ≤ q.1)
    (h : freqToKeys.Nodup) : (insertFreq freq key freqToKeys).Nodup := by
  induction freqToKeys with
  | nil => exact List.nodup_singleton _
  | cons p freqToKeys ih =>
    obtain ⟨hhead, htail⟩ := List.pairwise_cons.mp hsorted
    obtain ⟨hnot, hrest⟩ := List.nodup_cons.mp h
    rw [insertFreq]
    split_ifs with heq hlt
    · exact h
    · refine List.nodup_cons.mpr ⟨fun hmem => ?_, h⟩
      rcases List.mem_cons.mp hmem with hfirst | hlater
      · exact heq hfirst.symm
      · exact Nat.not_lt.mpr (hhead _ hlater) hlt
    · refine List.nodup_cons.mpr ⟨fun hmem => ?_, ih htail hrest⟩
      rcases (mem_insertFreq freqToKeys).mp hmem with hnew | hold
      · exact heq hnew
      · exact hnot hold

theorem Exact.setFreq (hsorted : freqToKeys.Pairwise fun p q => p.1 ≤ q.1)
    (hnodup : freqToKeys.Nodup) (hmem : ∀ f k, (f, k) ∈ freqToKeys ↔
      policy.keyToFreq.get? k = some f ∧ (k = key → f = freq)) :
    (policy.setFreq key freq freqToKeys).Exact := by
  refine ⟨sorted_insertFreq hsorted, nodup_insertFreq hsorted hnodup, fun f k => ?_⟩
  rw [CachePolicy.setFreq, mem_insertFreq, get?_set, hmem]
  split_ifs with heq
  · subst heq
    constructor
    · rintro (hpair | ⟨_, hfreq⟩)
      · rw [(Prod.mk.inj hpair).1]
      · rw [hfreq rfl]
    · intro hfreq
      exact .inl (by rw [some.inj hfreq])
  · constructor
    · rintro (hpair | ⟨hget, _⟩)
      · exact absurd (Prod.mk.inj hpair).2.symm heq
      · exact hget
    · exact fun hget => .inr ⟨hget, fun hkey => absurd hkey.symm heq⟩

theorem Exact.mem_erase_iff (h : policy.Exact) (hget : policy.keyToFreq.get? key = some freq)
    (f : ℕ) (k : K) : (f, k) ∈ policy.freqToKeys.erase (freq, key) ↔
      policy.keyToFreq.get? k = some f ∧ k ≠ key := by
  rw [h.nodup.mem_erase_iff, h.mem_iff, and_comm]
  refine and_congr_right fun hk => ?_
  constructor
  · rintro hne rfl
    rw [hget] at hk
    exact hne (by rw [some.inj hk])
  · exact fun hne heq => hne (Prod.mk.inj heq).2

theorem Exact.forgetKey (h : policy.Exact) (hget : policy.keyToFreq.get? key = some freq) :
    (policy.forgetKey freq key).Exact := by
  refine ⟨h.sorted.sublist List.erase_sublist, h.nodup.erase _, fun f k => ?_⟩
  rw [CachePolicy.forgetKey, h.mem_erase_iff hget, get?_erase]
  split_ifs with heq
  · subst heq
    exact ⟨fun hk => absurd rfl hk.2, fun hnone => absurd hnone (by simp)⟩
  · exact and_iff_left fun hk => heq hk.symm

theorem Exact.updateOnPut (h : policy.Exact)
    (hclear : policy.kind = .lfu → ∀ freq, policy.keyToFreq.get? key = some freq → freq = 1) :
    (policy.updateOnPut key).Exact := by
  rw [CachePolicy.updateOnPut]
  split
  · rename_i hlfu
    refine .setFreq h.sorted h.nodup fun f k => ?_
    rw [h.mem_iff]
    refine (and_iff_left_of_imp fun hget => ?_).symm
    rintro rfl
    exact hclear hlfu f hget
  · exact h

theorem Exact.updateOnHit (h : policy.Exact)
    (hhit : policy.updateOnHit key cacheDict = some (policy', cacheDict')) : policy'.Exact := by
  obtain ⟨rfl, _⟩ | ⟨_, freq, hget, rfl⟩ := updateOnHit_cases hhit
  · exact h
  · refine .setFreq (h.sorted.sublist List.erase_sublist) (h.nodup.erase _) fun f k => ?_
    rw [h.mem_erase_iff hget]
    refine and_congr_right fun hk => ?_
    constructor
    · exact fun hne heq => absurd heq hne
    · rintro hnext rfl
      rw [hget] at hk
      exact absurd (hnext rfl) (by rw [← some.inj hk]; omega)

theorem Exact.updateOnForceEvict (h : policy.Exact)
    (hevict : policy.updateOnForceEvict key = some policy') : policy'.Exact := by
  rw [CachePolicy.updateOnForceEvict] at hevict
  split at hevict
  · cases hget : policy.keyToFreq.get? key with
    | none =>
      rw [hget] at hevict
      exact some.inj hevict ▸ h
    | some freq =>
      rw [hget] at hevict
      dsimp only at hevict
      split_ifs at hevict
      exact some.inj hevict ▸ h.forgetKey hget
  · exact some.inj hevict ▸ h

theorem Exact.getEvictCandidates (h : policy.Exact) {found : Option K}
    (hfound : policy.getEvictCandidates canEvict cacheDict = some (found, policy')) :
    policy'.Exact := by
  rw [CachePolicy.getEvictCandidates] at hfound
  cases hkind : policy.kind with
  | lru | fifo | mru =>
    rw [hkind] at hfound
    obtain ⟨_, rfl⟩ := Prod.mk.inj (some.inj hfound)
    exact h
  | lfu =>
    rw [hkind] at hfound
    dsimp only at hfound
    split at hfound
    · cases hfound
    · obtain ⟨_, rfl⟩ := Prod.mk.inj (some.inj hfound)
      exact h
    · rename_i freq key hscan
      split_ifs at hfound
      obtain ⟨_, rfl⟩ := Prod.mk.inj (some.inj hfound)
      exact h.forgetKey ((h.mem_iff freq key).mp (LFUCachePolicy.mem_of_scanFreqs hscan))

end Exact

section Tracked

theorem tracked_updateOnHit (hhit : policy.updateOnHit key cacheDict = some (policy', cacheDict'))
    (key' : K) : policy'.keyToFreq.contains key' = policy.keyToFreq.contains key' := by
  obtain ⟨rfl, _⟩ | ⟨_, freq, hget, rfl⟩ := updateOnHit_cases hhit
  · rfl
  · rw [setFreq, contains, contains, get?_set]
    split_ifs with heq
    · rw [← heq, hget]
      rfl
    · rfl

theorem tracked_updateOnPut (hlfu : policy.kind = .lfu) (key key' : K) :
    (policy.updateOnPut key).keyToFreq.contains key' = true ↔
      key' = key ∨ policy.keyToFreq.contains key' = true := by
  rw [updateOnPut, hlfu]
  exact contains_set_iff _ _ _ _

theorem tracked_updateOnForceEvict (hlfu : policy.kind = .lfu)
    (hevict : policy.updateOnForceEvict key = some policy') (key' : K) :
    policy'.keyToFreq.contains key' = true ↔
      policy.keyToFreq.contains key' = true ∧ key' ≠ key := by
  rw [updateOnForceEvict, hlfu] at hevict
  cases hget : policy.keyToFreq.get? key with
  | none =>
    rw [hget] at hevict
    obtain rfl := some.inj hevict
    refine (and_iff_left_of_imp fun htracked => ?_).symm
    rintro rfl
    rw [contains, hget] at htracked
    cases htracked
  | some freq =>
    rw [hget] at hevict
    dsimp only at hevict
    split_ifs at hevict
    obtain rfl := some.inj hevict
    exact contains_erase_iff _ _ _

theorem tracked_getEvictCandidates (hlfu : policy.kind = .lfu)
    (hfound : policy.getEvictCandidates canEvict cacheDict = some (some key, policy')) (key' : K) :
    policy'.keyToFreq.contains key' = true ↔
      policy.keyToFreq.contains key' = true ∧ key' ≠ key := by
  rw [getEvictCandidates, hlfu] at hfound
  dsimp only at hfound
  split at hfound
  · cases hfound
  · cases (Prod.mk.inj (some.inj hfound)).1
  · split_ifs at hfound
    obtain ⟨hkey, rfl⟩ := Prod.mk.inj (some.inj hfound)
    obtain rfl := some.inj hkey
    exact contains_erase_iff _ _ _

end Tracked

section Keeps

structure Keeps (policy : CachePolicy K) (cacheDict : Dict K V) (waiting : K → Prop) : Prop where
  exact : policy.Exact
  tracked : ∀ key, cacheDict.contains key = true → policy.keyToFreq.contains key = true
  known : ∀ key, policy.keyToFreq.contains key = true → cacheDict.contains key = true ∨ waiting key

theorem keeps_init (kind : PolicyKind) (waiting : K → Prop) :
    (init kind).Keeps (empty : Dict K V) waiting where
  exact := exact_init kind
  tracked _ h := nomatch h
  known _ h := nomatch h

theorem Keeps.mono (h : policy.Keeps cacheDict waiting)
    (hsub : ∀ key, cacheDict'.contains key = true → cacheDict.contains key = true)
    (hstays : ∀ key, cacheDict.contains key = true ∨ waiting key →
      cacheDict'.contains key = true ∨ waiting' key) : policy.Keeps cacheDict' waiting' where
  exact := h.exact
  tracked key hkey := h.tracked key (hsub key hkey)
  known key hkey := hstays key (h.known key hkey)

theorem Keeps.updateOnHit (h : policy.Keeps cacheDict waiting)
    (hhit : policy.updateOnHit key cacheDict = some (policy', cacheDict')) :
    policy'.Keeps cacheDict' waiting := by
  have hstored : ∀ key, cacheDict'.contains key = cacheDict.contains key := fun key' => by
    rw [contains, contains, (hit_of_updateOnHit hhit).get?]
  refine ⟨h.exact.updateOnHit hhit, fun key' hkey' => ?_, fun key' hkey' => ?_⟩
  · rw [tracked_updateOnHit hhit]
    exact h.tracked key' ((hstored key').symm.trans hkey')
  · rw [tracked_updateOnHit hhit] at hkey'
    exact (h.known key' hkey').imp_left (hstored key').trans

theorem Keeps.updateOnPut (h : policy.Keeps cacheDict waiting) (hlfu : policy.kind = .lfu)
    (hclear : ∀ freq, policy.keyToFreq.get? key = some freq → freq = 1)
    (hdict : ∀ key', cacheDict'.contains key' = true → key' = key ∨ cacheDict.contains key' = true)
    (hkept : ∀ key', cacheDict.contains key' = true → cacheDict'.contains key' = true)
    (hkey : cacheDict'.contains key = true ∨ waiting' key)
    (hwaiting : ∀ key', waiting key' → waiting' key') :
    (policy.updateOnPut key).Keeps cacheDict' waiting' := by
  refine ⟨h.exact.updateOnPut fun _ => hclear, fun key' hkey' => ?_, fun key' hkey' => ?_⟩
  · rw [tracked_updateOnPut hlfu]
    exact (hdict key' hkey').imp_right (h.tracked key')
  · rw [tracked_updateOnPut hlfu] at hkey'
    rcases hkey' with rfl | hold
    · exact hkey
    · exact (h.known key' hold).imp (hkept key') (hwaiting key')

theorem Keeps.erase (h : policy.Keeps cacheDict waiting) (hexact : policy'.Exact)
    (hforgets : ∀ key', policy'.keyToFreq.contains key' = true ↔
      policy.keyToFreq.contains key' = true ∧ key' ≠ key) :
    policy'.Keeps (cacheDict.erase key) waiting := by
  refine ⟨hexact, fun key' hkey' => ?_, fun key' hkey' => ?_⟩
  · rw [contains_erase_iff] at hkey'
    exact (hforgets key').mpr ⟨h.tracked key' hkey'.1, hkey'.2⟩
  · obtain ⟨htracked, hne⟩ := (hforgets key').mp hkey'
    exact (h.known key' htracked).imp_left fun hstored =>
      (contains_erase_iff _ _ _).mpr ⟨hstored, hne⟩

theorem Keeps.updateOnForceEvict (h : policy.Keeps cacheDict waiting) (hlfu : policy.kind = .lfu)
    (hevict : policy.updateOnForceEvict key = some policy') :
    policy'.Keeps (cacheDict.erase key) waiting :=
  h.erase (h.exact.updateOnForceEvict hevict) (tracked_updateOnForceEvict hlfu hevict)

theorem Keeps.getEvictCandidates (h : policy.Keeps cacheDict waiting) (hlfu : policy.kind = .lfu)
    (hfound : policy.getEvictCandidates canEvict cacheDict = some (some key, policy')) :
    policy'.Keeps (cacheDict.erase key) waiting :=
  h.erase (h.exact.getEvictCandidates hfound) (tracked_getEvictCandidates hlfu hfound)

end Keeps

section Answers

def touchCalls : List K → CachePolicy K → Dict K V → List (PolicyCall K V)
  | [], _, _ => []
  | key :: keys, policy, cacheDict =>
      .updateOnHit key cacheDict ::
        match policy.updateOnHit key cacheDict with
        | none => []
        | some (policy, cacheDict) => touchCalls keys policy cacheDict

def leastUsed (policy : CachePolicy K) (canEvict : V → Bool) (cacheDict : Dict K V) : Option K :=
  (policy.freqToKeys.find? fun p => (cacheDict.get? p.2).any canEvict).map Prod.snd

def Knows (policy : CachePolicy K) (cacheDict : Dict K V) (key : K) : Prop :=
  match policy.kind with
  | .lru | .mru => cacheDict.contains key = true
  | .fifo => True
  | .lfu => policy.keyToFreq.contains key = true

def ScanClear (policy : CachePolicy K) (canEvict : V → Bool) (cacheDict : Dict K V) : Prop :=
  policy.kind = .lfu →
    ∀ p ∈ policy.freqToKeys.takeWhile fun p => !(cacheDict.get? p.2).any canEvict,
      cacheDict.contains p.2 = true

instance decidableKnows (policy : CachePolicy K) (cacheDict : Dict K V) (key : K) :
    Decidable (policy.Knows cacheDict key) :=
  match hkind : policy.kind with
  | .lru | .mru => decidable_of_iff (cacheDict.contains key = true) (by rw [Knows, hkind])
  | .fifo => .isTrue (by rw [Knows, hkind]; trivial)
  | .lfu => decidable_of_iff (policy.keyToFreq.contains key = true) (by rw [Knows, hkind])

instance decidableScanClear (policy : CachePolicy K) (canEvict : V → Bool) (cacheDict : Dict K V) :
    Decidable (policy.ScanClear canEvict cacheDict) :=
  inferInstanceAs (Decidable (_ → ∀ p ∈ _, _))

theorem isSome_updateOnHit_iff (h : policy.kind = .lfu → policy.Consistent) :
    (policy.updateOnHit key cacheDict).isSome = true ↔ policy.Knows cacheDict key := by
  rw [updateOnHit, Knows]
  cases hkind : policy.kind with
  | lru | mru =>
    dsimp only
    split_ifs with hstored
    · exact iff_of_true rfl hstored
    · exact iff_of_false (by simp) hstored
  | fifo => exact iff_of_true rfl trivial
  | lfu =>
    cases hget : policy.keyToFreq.get? key with
    | none => simp [contains, hget]
    | some freq => simp [contains, hget, h hkind key freq hget]

theorem exists_updateOnHit (hknows : policy.Knows cacheDict key)
    (hexact : policy.kind = .lfu → policy.Exact) :
    ∃ policy' cacheDict', policy.updateOnHit key cacheDict = some (policy', cacheDict') := by
  obtain ⟨⟨policy', cacheDict'⟩, hhit⟩ := isSome_iff_exists.mp
    ((isSome_updateOnHit_iff fun hlfu => (hexact hlfu).consistent).mpr hknows)
  exact ⟨policy', cacheDict', hhit⟩

theorem knows_updateOnHit_iff
    (hhit : policy.updateOnHit key cacheDict = some (policy', cacheDict')) :
    policy'.Knows cacheDict' key' ↔ policy.Knows cacheDict key' := by
  have hkind := (hit_of_updateOnHit hhit).kind
  rw [Knows, Knows, hkind, tracked_updateOnHit hhit, contains, (hit_of_updateOnHit hhit).get?]
  exact Iff.rfl

theorem Knows.updateOnHit (h : policy.Knows cacheDict key')
    (hhit : policy.updateOnHit key cacheDict = some (policy', cacheDict')) :
    policy'.Knows cacheDict' key' :=
  (knows_updateOnHit_iff hhit).mpr h

theorem follows_updateOnHit
    (hhit : policy.updateOnHit key cacheDict = some (policy', cacheDict')) :
    Follows after policy [.updateOnHit key cacheDict] policy' := by
  refine .single none ?_ trivial
  rw [after, hhit]
  rfl

theorem scanFreqs_of_clear (hclear : ∀ p ∈ freqToKeys.takeWhile
      fun p => !(cacheDict.get? p.2).any canEvict, cacheDict.contains p.2 = true) :
    ∃ found, scanFreqs canEvict cacheDict freqToKeys = some found := by
  induction freqToKeys with
  | nil => exact ⟨none, rfl⟩
  | cons p freqToKeys ih =>
    obtain ⟨freq, key⟩ := p
    rw [scanFreqs]
    rw [List.takeWhile_cons] at hclear
    cases hget : cacheDict.get? key with
    | none =>
      rw [hget] at hclear
      have hstored := hclear (freq, key) List.mem_cons_self
      rw [contains, hget] at hstored
      cases hstored
    | some v =>
      dsimp only
      split_ifs with hevict
      · exact ⟨_, rfl⟩
      · rw [hget] at hclear
        simp only [any_some, hevict, Bool.not_false, if_pos] at hclear
        exact ih fun p hp => hclear p (List.mem_cons_of_mem _ hp)

theorem find?_of_scanFreqs (hscan : scanFreqs canEvict cacheDict freqToKeys = some (some (freq, key))) :
    freqToKeys.find? (fun p => (cacheDict.get? p.2).any canEvict) = some (freq, key) := by
  induction freqToKeys with
  | nil => cases hscan
  | cons p freqToKeys ih =>
    obtain ⟨freq', key'⟩ := p
    rw [scanFreqs] at hscan
    rw [List.find?_cons]
    cases hget : cacheDict.get? key' with
    | none =>
      rw [hget] at hscan
      cases hscan
    | some v =>
      rw [hget] at hscan
      rw [any_some]
      dsimp only at hscan ⊢
      split_ifs at hscan with hevict
      · obtain ⟨rfl, rfl⟩ := Prod.mk.inj (some.inj (some.inj hscan))
        rw [hevict]
      · rw [Bool.not_eq_true] at hevict
        rw [hevict]
        exact ih hscan

theorem leastUsed_of_getEvictCandidates (hlfu : policy.kind = .lfu)
    (hfound : policy.getEvictCandidates canEvict cacheDict = some (some key, policy')) :
    policy.leastUsed canEvict cacheDict = some key := by
  rw [getEvictCandidates, hlfu] at hfound
  dsimp only at hfound
  split at hfound
  · cases hfound
  · cases (Prod.mk.inj (some.inj hfound)).1
  · rename_i hscan
    split_ifs at hfound
    rw [leastUsed, find?_of_scanFreqs hscan]
    exact (Prod.mk.inj (some.inj hfound)).1

theorem exists_getEvictCandidates (hclear : policy.ScanClear canEvict cacheDict)
    (hexact : policy.kind = .lfu → policy.Exact) :
    ∃ found policy', policy.getEvictCandidates canEvict cacheDict = some (found, policy') := by
  rw [getEvictCandidates]
  cases hkind : policy.kind with
  | lru | fifo | mru => exact ⟨_, _, rfl⟩
  | lfu =>
    obtain ⟨found, hscan⟩ := scanFreqs_of_clear (hclear hkind)
    dsimp only
    rw [hscan]
    cases found with
    | none => exact ⟨_, _, rfl⟩
    | some p =>
      obtain ⟨freq, key⟩ := p
      have hget := ((hexact hkind).mem_iff freq key).mp (LFUCachePolicy.mem_of_scanFreqs hscan)
      refine ⟨_, _, if_pos ?_⟩
      rw [contains, hget]
      rfl

theorem follows_getEvictCandidates {found : Option K}
    (hkeeps : policy.kind = .lfu → policy.Keeps cacheDict waiting)
    (hfound : policy.getEvictCandidates canEvict cacheDict = some (found, policy')) :
    Follows after policy [.getEvictCandidates canEvict cacheDict] policy' := by
  refine .single found hfound ⟨fun key hkey => ?_, fun hnone key v hget => ?_⟩
  · subst hkey
    exact (candidate_of_getEvictCandidates hfound).stored
  · subst hnone
    refine (none_of_getEvictCandidates hfound).2 key v (fun hlfu => ?_) hget
    have hkept := hkeeps hlfu
    have hstored : cacheDict.contains key = true := by
      rw [contains, hget]
      rfl
    obtain ⟨freq, hfreq⟩ := isSome_iff_exists.mp (hkept.tracked key hstored)
    exact ⟨freq, hfreq, hkept.exact.consistent key freq hfreq⟩

theorem follows_updateOnPut (policy : CachePolicy K) (key : K) :
    Follows after policy [(.updateOnPut key : PolicyCall K V)] (policy.updateOnPut key) :=
  .single none rfl trivial

theorem exists_updateOnForceEvict (hexact : policy.kind = .lfu → policy.Exact) (key : K) :
    ∃ policy', policy.updateOnForceEvict key = some policy' := by
  cases hkind : policy.kind with
  | lru | fifo | mru =>
    refine ⟨policy, ?_⟩
    rw [updateOnForceEvict, hkind]
  | lfu => exact (hexact hkind).consistent.isSome_updateOnForceEvict key

theorem follows_updateOnForceEvict (hevict : policy.updateOnForceEvict key = some policy') :
    Follows after policy [(.updateOnForceEvict key : PolicyCall K V)] policy' := by
  refine .single none ?_ trivial
  rw [after, hevict]
  rfl

end Answers

end CachePolicy

end LMCache
