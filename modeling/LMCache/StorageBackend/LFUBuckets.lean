import LMCache.Foundations.Buckets
import LMCache.StorageBackend.CachePolicy

namespace LMCache

open Buckets CachePolicy List Option

namespace CachePolicy

variable {K : Type} [DecidableEq K] {freq : ℕ} {key : K}

theorem insertFreq_append (ps qs : List (ℕ × K)) (hle : ∀ p ∈ ps, p.1 ≤ freq)
    (hnot : (freq, key) ∉ ps) : insertFreq freq key (ps ++ qs) = ps ++ insertFreq freq key qs := by
  induction ps with
  | nil => rfl
  | cons p ps ih =>
    have hne : p ≠ (freq, key) := fun heq => hnot (heq ▸ mem_cons_self)
    have hp : ¬ freq < p.1 := Nat.not_lt.mpr (hle p mem_cons_self)
    rw [cons_append, insertFreq, if_neg hne, if_neg hp, cons_append,
      ih (fun q hq => hle q (mem_cons_of_mem _ hq))
        fun hmem => hnot (mem_cons_of_mem _ hmem)]

theorem insertFreq_of_mem {ps : List (ℕ × K)} (hle : ∀ p ∈ ps, p.1 ≤ freq)
    (hmem : (freq, key) ∈ ps) (qs : List (ℕ × K)) :
    insertFreq freq key (ps ++ qs) = ps ++ qs := by
  induction ps with
  | nil => cases hmem
  | cons p ps ih =>
    rw [cons_append, insertFreq]
    split_ifs with heq hlt
    · rfl
    · exact absurd (hle p mem_cons_self) (Nat.not_le.mpr hlt)
    · rw [ih (fun q hq => hle q (mem_cons_of_mem _ hq))]
      exact (mem_cons.mp hmem).resolve_left fun h => heq h.symm

theorem insertFreq_of_lt {qs : List (ℕ × K)} (hlt : ∀ q ∈ qs, freq < q.1) :
    insertFreq freq key qs = (freq, key) :: qs := by
  cases qs with
  | nil => rfl
  | cons q qs =>
    have hq := hlt q mem_cons_self
    have hne : q ≠ (freq, key) := fun heq => Nat.lt_irrefl freq (by rw [heq] at hq; exact hq)
    rw [insertFreq, if_neg hne, if_pos hq]

theorem entries_add {buckets : List (ℕ × List K)} (h : Buckets.WellFormed buckets) :
    entries (add freq key buckets) = insertFreq freq key (entries buckets) := by
  induction buckets with
  | nil => rfl
  | cons bucket buckets ih =>
    have hlater : ∀ q ∈ entries buckets, bucket.1 < q.1 := by
      rintro ⟨i, k⟩ hq
      obtain ⟨keys, hkeys, _⟩ := mem_entries.mp hq
      exact h.head_lt (i, keys) hkeys
    have hhead : ∀ p ∈ bucket.2.map (fun key => (bucket.1, key)), p.1 = bucket.1 := by
      intro p hp
      obtain ⟨k, _, rfl⟩ := mem_map.mp hp
      rfl
    rw [add, entries_cons]
    split_ifs with heq hlt
    · subst heq
      rw [entries_cons, addTo]
      split_ifs with hmem
      · exact (insertFreq_of_mem (fun p hp => (hhead p hp).le)
          (mem_head.mpr ⟨rfl, hmem⟩) _).symm
      · rw [insertFreq_append _ _ (fun p hp => (hhead p hp).le)
          fun hin => hmem (mem_head.mp hin).2, insertFreq_of_lt hlater, map_append,
          append_assoc]
        rfl
    · rw [insertFreq_of_lt]
      · rfl
      · intro q hq
        rcases mem_append.mp hq with hq | hq
        · rw [hhead q hq]
          exact hlt
        · exact hlt.trans (hlater q hq)
    · have hlt' : bucket.1 < freq := lt_of_le_of_ne (not_lt.mp hlt) heq
      rw [entries_cons, ih h.tail, insertFreq_append]
      · intro p hp
        rw [hhead p hp]
        exact hlt'.le
      · exact fun hin => heq (mem_head.mp hin).1

end CachePolicy

structure LFUCachePolicy (K : Type) where
  keyToFreq : Dict K ℕ
  freqToKeys : List (ℕ × List K)

namespace LFUCachePolicy

variable {K V : Type} [DecidableEq K]

def init : LFUCachePolicy K := ⟨Dict.empty, []⟩

variable (lfu : LFUCachePolicy K)

def updateOnHit (key : K) : Option (LFUCachePolicy K) := do
  let currFreq ← lfu.keyToFreq.get? key
  let freqToKeys ← pop currFreq key lfu.freqToKeys
  return ⟨lfu.keyToFreq.set key (currFreq + 1), add (currFreq + 1) key freqToKeys⟩

def updateOnPut (key : K) : LFUCachePolicy K :=
  ⟨lfu.keyToFreq.set key 1, add 1 key lfu.freqToKeys⟩

def updateOnForceEvict (key : K) : Option (LFUCachePolicy K) :=
  match lfu.keyToFreq.get? key with
  | none => some lfu
  | some freq =>
      if freq = 0 then some { lfu with keyToFreq := lfu.keyToFreq.erase key }
      else (pop freq key lfu.freqToKeys).map fun freqToKeys =>
        ⟨lfu.keyToFreq.erase key, freqToKeys⟩

def scanKeys (canEvict : V → Bool) (cacheDict : Dict K V) : List K → Option (Option K)
  | [] => some none
  | key :: keys =>
      match cacheDict.get? key with
      | none => none
      | some v => if canEvict v then some (some key) else scanKeys canEvict cacheDict keys

def scanBuckets (canEvict : V → Bool) (cacheDict : Dict K V) :
    List (ℕ × List K) → Option (Option (ℕ × K))
  | [] => some none
  | (freq, fifoKeys) :: buckets =>
      match scanKeys canEvict cacheDict fifoKeys with
      | none => none
      | some (some key) => some (some (freq, key))
      | some none => scanBuckets canEvict cacheDict buckets

def getEvictCandidates (canEvict : V → Bool) (cacheDict : Dict K V) :
    Option (Option K × LFUCachePolicy K) :=
  match scanBuckets canEvict cacheDict lfu.freqToKeys with
  | none => none
  | some none => some (none, lfu)
  | some (some (freq, key)) =>
      if lfu.keyToFreq.contains key then
        (pop freq key lfu.freqToKeys).map fun freqToKeys =>
          (some key, ⟨lfu.keyToFreq.erase key, freqToKeys⟩)
      else none

def flat : CachePolicy K :=
  ⟨.lfu, lfu.keyToFreq, entries lfu.freqToKeys⟩

structure WellFormed (lfu : LFUCachePolicy K) : Prop where
  buckets : Buckets.WellFormed lfu.freqToKeys
  positive : ∀ key freq, lfu.keyToFreq.get? key = some freq → 0 < freq

variable {lfu lfu' : LFUCachePolicy K} {key : K} {canEvict : V → Bool} {cacheDict : Dict K V}

theorem wellFormed_init : WellFormed (init : LFUCachePolicy K) where
  buckets := ⟨.nil, (fun _ hb => nomatch hb), (fun _ hb => nomatch hb)⟩
  positive _ _ hget := nomatch hget

theorem flat_updateOnPut (h : lfu.WellFormed) (key : K) :
    (lfu.updateOnPut key).flat = lfu.flat.updateOnPut key := by
  rw [flat, updateOnPut, entries_add h.buckets]
  rfl

theorem WellFormed.updateOnPut (h : lfu.WellFormed) (key : K) :
    (lfu.updateOnPut key).WellFormed where
  buckets := h.buckets.add 1 key
  positive key' freq hget := by
    rw [LFUCachePolicy.updateOnPut, Dict.get?_set] at hget
    split_ifs at hget
    · obtain rfl := some.inj hget
      exact Nat.one_pos
    · exact h.positive key' freq hget

theorem flat_updateOnHit (h : lfu.WellFormed) (key : K) (cacheDict : Dict K V) :
    lfu.flat.updateOnHit key cacheDict =
      (lfu.updateOnHit key).map fun lfu' => (lfu'.flat, cacheDict) := by
  have hflat : lfu.flat.updateOnHit key cacheDict =
      match lfu.keyToFreq.get? key with
      | none => none
      | some freq =>
          if (freq, key) ∈ entries lfu.freqToKeys then
            some (lfu.flat.setFreq key (freq + 1)
              ((entries lfu.freqToKeys).erase (freq, key)), cacheDict)
          else none := rfl
  rw [hflat, updateOnHit]
  cases lfu.keyToFreq.get? key with
  | none => rfl
  | some freq =>
    cases hpop : pop freq key lfu.freqToKeys with
    | none =>
      dsimp only [bind, Option.bind]
      rw [if_neg (notMem_of_pop h.buckets hpop), hpop]
      rfl
    | some freqToKeys =>
      obtain ⟨hmem, hentries⟩ := mem_of_pop h.buckets hpop
      dsimp only [bind, Option.bind]
      rw [if_pos hmem, hpop, ← hentries, setFreq, ← entries_add (h.buckets.pop hpop)]
      rfl

theorem WellFormed.updateOnHit (h : lfu.WellFormed) (hhit : lfu.updateOnHit key = some lfu') :
    lfu'.WellFormed := by
  rw [LFUCachePolicy.updateOnHit] at hhit
  obtain ⟨freq, _, hhit⟩ := bind_eq_some_iff.mp hhit
  obtain ⟨freqToKeys, hpop, hhit⟩ := bind_eq_some_iff.mp hhit
  obtain rfl := some.inj hhit
  refine ⟨(h.buckets.pop hpop).add (freq + 1) key, fun key' freq' hget => ?_⟩
  rw [Dict.get?_set] at hget
  split_ifs at hget
  · obtain rfl := some.inj hget
    exact Nat.succ_pos freq
  · exact h.positive key' freq' hget

variable {freqToKeys : List (ℕ × List K)}

theorem flat_forget (h : lfu.WellFormed) {freq : ℕ}
    (hpop : pop freq key lfu.freqToKeys = some freqToKeys) :
    lfu.flat.forgetKey freq key = flat ⟨lfu.keyToFreq.erase key, freqToKeys⟩ := by
  have hentries := (mem_of_pop h.buckets hpop).2
  simp only [flat, forgetKey, hentries]

theorem flat_updateOnForceEvict (h : lfu.WellFormed) (key : K) :
    lfu.flat.updateOnForceEvict key = (lfu.updateOnForceEvict key).map flat := by
  have hflat : lfu.flat.updateOnForceEvict key =
      match lfu.keyToFreq.get? key with
      | none => some lfu.flat
      | some freq =>
          if (freq, key) ∈ entries lfu.freqToKeys then some (lfu.flat.forgetKey freq key)
          else none := rfl
  rw [hflat, updateOnForceEvict]
  cases hget : lfu.keyToFreq.get? key with
  | none => rfl
  | some freq =>
    have hpos := Nat.ne_of_gt (h.positive key freq hget)
    dsimp only
    rw [if_neg hpos]
    cases hpop : pop freq key lfu.freqToKeys with
    | none =>
      rw [if_neg (notMem_of_pop h.buckets hpop)]
      rfl
    | some freqToKeys =>
      rw [if_pos (mem_of_pop h.buckets hpop).1, flat_forget h hpop]
      rfl

theorem WellFormed.forget (h : lfu.WellFormed) {freq : ℕ}
    (hpop : pop freq key lfu.freqToKeys = some freqToKeys) :
    WellFormed ⟨lfu.keyToFreq.erase key, freqToKeys⟩ := by
  refine ⟨h.buckets.pop hpop, fun key' freq' hget => ?_⟩
  rw [Dict.get?_erase] at hget
  split_ifs at hget
  exact h.positive key' freq' hget

theorem WellFormed.updateOnForceEvict (h : lfu.WellFormed)
    (hevict : lfu.updateOnForceEvict key = some lfu') : lfu'.WellFormed := by
  rw [LFUCachePolicy.updateOnForceEvict] at hevict
  cases hget : lfu.keyToFreq.get? key with
  | none =>
    rw [hget] at hevict
    exact some.inj hevict ▸ h
  | some freq =>
    rw [hget] at hevict
    dsimp only at hevict
    rw [if_neg (Nat.ne_of_gt (h.positive key freq hget))] at hevict
    obtain ⟨freqToKeys, hpop, rfl⟩ := map_eq_some_iff.mp hevict
    exact h.forget hpop

theorem scanFreqs_append (freq : ℕ) (keys : List K) (rest : List (ℕ × K)) :
    scanFreqs canEvict cacheDict (keys.map (fun key => (freq, key)) ++ rest) =
      match scanKeys canEvict cacheDict keys with
      | none => none
      | some (some key) => some (some (freq, key))
      | some none => scanFreqs canEvict cacheDict rest := by
  induction keys with
  | nil => rfl
  | cons key keys ih =>
    rw [map_cons, cons_append, scanFreqs, scanKeys, ih]
    cases cacheDict.get? key with
    | none => rfl
    | some v =>
      dsimp only
      split_ifs
      · rfl
      · rfl

theorem scanBuckets_eq (buckets : List (ℕ × List K)) :
    scanBuckets canEvict cacheDict buckets = scanFreqs canEvict cacheDict (entries buckets) := by
  induction buckets with
  | nil => rfl
  | cons bucket buckets ih =>
    rw [entries_cons, scanFreqs_append, scanBuckets, ih]

theorem mem_of_scanFreqs {freqToKeys : List (ℕ × K)} {freq : ℕ}
    (h : scanFreqs canEvict cacheDict freqToKeys = some (some (freq, key))) :
    (freq, key) ∈ freqToKeys := by
  induction freqToKeys with
  | nil => cases h
  | cons p freqToKeys ih =>
    obtain ⟨freq', key'⟩ := p
    rw [scanFreqs] at h
    cases hget : cacheDict.get? key' with
    | none =>
      rw [hget] at h
      cases h
    | some v =>
      rw [hget] at h
      dsimp only at h
      split_ifs at h
      · obtain ⟨rfl, rfl⟩ := Prod.mk.inj (some.inj (some.inj h))
        exact mem_cons_self
      · exact mem_cons_of_mem _ (ih h)

theorem flat_getEvictCandidates (h : lfu.WellFormed) (canEvict : V → Bool)
    (cacheDict : Dict K V) :
    lfu.flat.getEvictCandidates canEvict cacheDict =
      (lfu.getEvictCandidates canEvict cacheDict).map fun found => (found.1, found.2.flat) := by
  have hflat : lfu.flat.getEvictCandidates canEvict cacheDict =
      match scanFreqs canEvict cacheDict (entries lfu.freqToKeys) with
      | none => none
      | some none => some (none, lfu.flat)
      | some (some (freq, key)) =>
          if lfu.keyToFreq.contains key then some (some key, lfu.flat.forgetKey freq key)
          else none := rfl
  rw [hflat, getEvictCandidates, scanBuckets_eq]
  cases hscan : scanFreqs canEvict cacheDict (entries lfu.freqToKeys) with
  | none => rfl
  | some found =>
    cases found with
    | none => rfl
    | some p =>
      obtain ⟨freq, key⟩ := p
      dsimp only
      cases hcontains : lfu.keyToFreq.contains key with
      | false => rfl
      | true =>
        cases hpop : pop freq key lfu.freqToKeys with
        | none => exact absurd (mem_of_scanFreqs hscan) (notMem_of_pop h.buckets hpop)
        | some freqToKeys =>
          rw [if_pos rfl, if_pos rfl, flat_forget h hpop]
          rfl

theorem WellFormed.getEvictCandidates (h : lfu.WellFormed) {found : Option K}
    (hfound : lfu.getEvictCandidates canEvict cacheDict = some (found, lfu')) :
    lfu'.WellFormed := by
  rw [LFUCachePolicy.getEvictCandidates] at hfound
  split at hfound
  · cases hfound
  · obtain ⟨_, rfl⟩ := Prod.mk.inj (some.inj hfound)
    exact h
  · split_ifs at hfound
    obtain ⟨freqToKeys, hpop, heq⟩ := map_eq_some_iff.mp hfound
    obtain ⟨_, rfl⟩ := Prod.mk.inj heq
    exact h.forget hpop

end LFUCachePolicy

end LMCache
