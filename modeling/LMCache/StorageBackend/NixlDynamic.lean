import LMCache.CacheEngineKey
import LMCache.Foundations.Execution
import Mathlib.Data.Finset.Basic

namespace LMCache

open List CacheEngineKey

inductive NixlEnding where
  | handlerRaises
  | handleRaises
  | backendError
  | err
  | done
deriving DecidableEq

structure NixlPutItem (B : Type) where
  key : CacheEngineKey
  memObj : ℕ
  bytes : B

inductive NixlDynamicEvent (B : Type) where
  | batchedSubmitPutTask (put : List (NixlPutItem B))
  | memToStorage (i : ℕ) (ending : NixlEnding)
  | waitForTransfer (i : ℕ) (ending : NixlEnding)
  | storageToMem (keys : List CacheEngineKey) (hasRoom : Bool) (ending : NixlEnding)
  | contains (key : CacheEngineKey) (queryFails : Bool)
  | remove (key : CacheEngineKey)

-- refs counts the references that the backend has taken; strayObjs and strayHandles are what the
-- calls that are over have allocated and neither returned nor given back
structure NixlDynamic (B : Type) where
  asyncMode : Bool
  enablePresenceCache : Bool
  keyPresenceCache : Finset ℕ
  progressSet : Finset CacheEngineKey
  storage : List Char → Option B
  refs : ℕ → ℕ
  submitted : List (List (NixlPutItem B))
  posted : List (List (NixlPutItem B))
  strayObjs : ℕ
  strayHandles : ℕ
  completed : List (CacheEngineKey × B)
  answered : List (CacheEngineKey × B)
  found : List CacheEngineKey

def isUnreserved (c : Char) : Bool := c.isAlphanum || c == '_' || c == '.' || c == '-' || c == '~'

def percentEncode (b : UInt8) : List Char :=
  '%' :: ((Nat.toDigits 16 b.toNat).leftpad 2 '0').map Char.toUpper

def urlQuote (s : List Char) : List Char :=
  s.flatMap fun c => if isUnreserved c then [c] else (String.utf8EncodeChar c).flatMap percentEncode

def formatObjectKey (key : CacheEngineKey) : List Char :=
  urlQuote (key.toStr.map fun c => if c = '/' ∨ c = '@' then '_' else c)

namespace NixlDynamic

variable {B : Type}

def start (asyncMode enablePresenceCache : Bool) : NixlDynamic B where
  asyncMode := asyncMode
  enablePresenceCache := enablePresenceCache
  keyPresenceCache := ∅
  progressSet := ∅
  storage _ := none
  refs _ := 0
  submitted := []
  posted := []
  strayObjs := 0
  strayHandles := 0
  completed := []
  answered := []
  found := []

def cacheContains (s : NixlDynamic B) (chunkHash : ℕ) : Bool :=
  s.enablePresenceCache && chunkHash ∈ s.keyPresenceCache

def cacheAdd (s : NixlDynamic B) (chunkHash : ℕ) : NixlDynamic B :=
  if s.enablePresenceCache then { s with keyPresenceCache := insert chunkHash s.keyPresenceCache }
  else s

def cacheDiscard (s : NixlDynamic B) (chunkHash : ℕ) : NixlDynamic B :=
  if s.enablePresenceCache then { s with keyPresenceCache := s.keyPresenceCache.erase chunkHash }
  else s

def memObjs (puts : List (List (NixlPutItem B))) : List ℕ := puts.flatten.map NixlPutItem.memObj

def batchedSubmitPutTask (s : NixlDynamic B) (put : List (NixlPutItem B)) : NixlDynamic B :=
  { s with
    progressSet := s.progressSet ∪ (put.map NixlPutItem.key).toFinset
    refs := fun obj => s.refs obj + if s.asyncMode then (memObjs [put]).count obj else 0
    submitted := s.submitted ++ [put] }

def store (s : NixlDynamic B) (item : NixlPutItem B) : NixlDynamic B :=
  { s with
    storage := Function.update s.storage (formatObjectKey item.key) (some item.bytes)
    completed := s.completed ++ [(item.key, item.bytes)] }

def finishKey (s : NixlDynamic B) (key : CacheEngineKey) : NixlDynamic B :=
  { s with progressSet := s.progressSet.erase key }.cacheAdd key.chunkHash

def transferDone (s : NixlDynamic B) (put : List (NixlPutItem B)) : NixlDynamic B :=
  (put.map NixlPutItem.key).foldl finishKey (put.foldl store s)

def memToStorage (s : NixlDynamic B) (put : List (NixlPutItem B)) (ending : NixlEnding) :
    NixlDynamic B :=
  if put.isEmpty then s
  else
    match ending with
    | .handlerRaises => s
    | .handleRaises => { s with strayHandles := s.strayHandles + 1 }
    | .backendError => { s with strayHandles := s.strayHandles + 2 }
    | .err =>
        if s.asyncMode then { s with posted := s.posted ++ [put] }
        else { s with strayHandles := s.strayHandles + 2 }
    | .done =>
        if s.asyncMode then { s with posted := s.posted ++ [put] } else s.transferDone put

def waitForTransfer (s : NixlDynamic B) (put : List (NixlPutItem B)) (ending : NixlEnding) :
    NixlDynamic B :=
  let s := if ending = .done then s.transferDone put else s
  { s with refs := fun obj => s.refs obj - (memObjs [put]).count obj }

def readAll (s : NixlDynamic B) (keys : List CacheEngineKey) : Option (List (CacheEngineKey × B)) :=
  keys.mapM fun key => (s.storage (formatObjectKey key)).map fun bytes => (key, bytes)

def storageToMem (s : NixlDynamic B) (keys : List CacheEngineKey) (ending : NixlEnding) :
    NixlDynamic B :=
  let caught := (keys.map chunkHash).foldl cacheDiscard s
  match ending with
  | .handlerRaises => { s with strayObjs := s.strayObjs + keys.length }
  | .handleRaises =>
      { s with strayObjs := s.strayObjs + keys.length, strayHandles := s.strayHandles + 1 }
  | .err => { s with strayObjs := s.strayObjs + keys.length, strayHandles := s.strayHandles + 2 }
  | .backendError => caught
  | .done =>
      match s.readAll keys with
      | some objs =>
          { (keys.map chunkHash).foldl cacheAdd s with answered := s.answered ++ objs }
      | none => caught

def contains (s : NixlDynamic B) (key : CacheEngineKey) (queryFails : Bool) : NixlDynamic B :=
  if key ∈ s.progressSet then s
  else if s.cacheContains key.chunkHash then { s with found := s.found ++ [key] }
  else if !queryFails && (s.storage (formatObjectKey key)).isSome then
    { s.cacheAdd key.chunkHash with found := s.found ++ [key] }
  else s

def exec (s : NixlDynamic B) : NixlDynamicEvent B → NixlDynamic B
  | .batchedSubmitPutTask put => s.batchedSubmitPutTask put
  | .memToStorage i ending =>
      match s.submitted[i]? with
      | some put => { s with submitted := s.submitted.eraseIdx i }.memToStorage put ending
      | none => s
  | .waitForTransfer i ending =>
      match s.posted[i]? with
      | some put => { s with posted := s.posted.eraseIdx i }.waitForTransfer put ending
      | none => s
  | .storageToMem keys hasRoom ending =>
      if keys.isEmpty || !hasRoom then s else s.storageToMem keys ending
  | .contains key queryFails => s.contains key queryFails
  | .remove key => s.cacheDiscard key.chunkHash

def puts (s : NixlDynamic B) : List (List (NixlPutItem B)) := s.submitted ++ s.posted

structure Correct (s : NixlDynamic B) : Prop where
  found : ∀ key ∈ s.found, ∃ bytes, (key, bytes) ∈ s.completed
  answered : ∀ e ∈ s.answered, e ∈ s.completed
  refs : ∀ obj, s.refs obj = if s.asyncMode then (memObjs s.puts).count obj else 0
  nothingLeft : s.strayObjs = 0 ∧ s.strayHandles = 0
  progress : ∀ key ∈ s.progressSet, ∃ put ∈ s.puts, ∃ item ∈ put, item.key = key

def Asked (s : NixlDynamic B) (key : CacheEngineKey) : Prop :=
  (∃ bytes, (key, bytes) ∈ s.completed) ∨ ∀ e ∈ s.completed,
    formatObjectKey e.1 ≠ formatObjectKey key ∧
      (s.enablePresenceCache = true → e.1.chunkHash ≠ key.chunkHash)

def Sound (s : NixlDynamic B) : NixlDynamicEvent B → Prop
  | .memToStorage i ending => ∀ put ∈ s.submitted[i]?, put ≠ [] →
      ending = .done ∨ s.asyncMode = true ∧ ending = .err
  | .waitForTransfer i ending => ∀ put ∈ s.posted[i]?, ending = .done
  | .storageToMem keys hasRoom ending => keys ≠ [] → hasRoom = true →
      (ending = .done ∨ ending = .backendError) ∧ ∀ key ∈ keys, ∀ e ∈ s.completed,
        formatObjectKey e.1 = formatObjectKey key → e.1 = key
  | .contains key _ => s.Asked key
  | _ => True

structure Inv (s : NixlDynamic B) : Prop extends s.Correct where
  stored : ∀ name bytes, s.storage name = some bytes →
    ∃ key, formatObjectKey key = name ∧ (key, bytes) ∈ s.completed
  cached : ∀ chunkHash ∈ s.keyPresenceCache, s.enablePresenceCache = true ∧
    ∃ e ∈ s.completed, e.1.chunkHash = chunkHash

variable {s : NixlDynamic B} {put : List (NixlPutItem B)}

theorem inv_start (asyncMode enablePresenceCache : Bool) :
    (start asyncMode enablePresenceCache : NixlDynamic B).Inv := by
  refine ⟨⟨?_, ?_, fun obj => ?_, ⟨rfl, rfl⟩, ?_⟩, ?_, ?_⟩
  all_goals simp [start, puts, memObjs]

theorem foldl_store (put : List (NixlPutItem B)) (s : NixlDynamic B) :
    ∃ storage, put.foldl store s = { s with
        storage := storage
        completed := s.completed ++ put.map fun item => (item.key, item.bytes) } ∧
      ∀ name bytes, storage name = some bytes → s.storage name = some bytes ∨
        ∃ item ∈ put, formatObjectKey item.key = name ∧ item.bytes = bytes := by
  induction put generalizing s with
  | nil => exact ⟨s.storage, by simp, fun name bytes h => .inl h⟩
  | cons item rest ih =>
    obtain ⟨storage, heq, hstorage⟩ := ih (s.store item)
    refine ⟨storage, ?_, fun name bytes h => ?_⟩
    · rw [foldl_cons, heq]
      simp [store]
    · rcases hstorage name bytes h with hold | ⟨x, hx, hname⟩
      · by_cases hkey : name = formatObjectKey item.key
        · subst hkey
          refine .inr ⟨item, mem_cons_self, rfl, ?_⟩
          simpa [store] using hold
        · exact .inl (by simpa [store, hkey] using hold)
      · exact .inr ⟨x, mem_cons_of_mem _ hx, hname⟩

theorem foldl_cacheAdd (chunkHashes : List ℕ) (s : NixlDynamic B) :
    ∃ cache, chunkHashes.foldl cacheAdd s = { s with keyPresenceCache := cache } ∧
      ∀ chunkHash ∈ cache, chunkHash ∈ s.keyPresenceCache ∨
        s.enablePresenceCache = true ∧ chunkHash ∈ chunkHashes := by
  induction chunkHashes generalizing s with
  | nil => exact ⟨s.keyPresenceCache, rfl, fun _ h => .inl h⟩
  | cons chunkHash rest ih =>
    obtain ⟨cache, heq, hcache⟩ := ih (s.cacheAdd chunkHash)
    refine ⟨cache, ?_, fun h hh => ?_⟩
    · rw [foldl_cons, heq, cacheAdd]
      split_ifs <;> rfl
    · cases henabled : s.enablePresenceCache with
      | false => simpa [cacheAdd, henabled] using hcache h hh
      | true =>
        have := hcache h hh
        simp only [cacheAdd, henabled, if_true, Finset.mem_insert, true_and] at this
        simp only [true_and, mem_cons]
        tauto

theorem foldl_cacheDiscard (chunkHashes : List ℕ) (s : NixlDynamic B) :
    ∃ cache ⊆ s.keyPresenceCache, chunkHashes.foldl cacheDiscard s =
      { s with keyPresenceCache := cache } := by
  induction chunkHashes generalizing s with
  | nil => exact ⟨s.keyPresenceCache, Finset.Subset.refl _, rfl⟩
  | cons chunkHash rest ih =>
    obtain ⟨cache, hsub, heq⟩ := ih (s.cacheDiscard chunkHash)
    refine ⟨cache, hsub.trans ?_, ?_⟩
    · rw [cacheDiscard]
      split_ifs
      exacts [Finset.erase_subset _ _, Finset.Subset.refl _]
    · rw [foldl_cons, heq, cacheDiscard]
      split_ifs <;> rfl

theorem foldl_finishKey (keys : List CacheEngineKey) (s : NixlDynamic B) :
    keys.foldl finishKey s = (keys.map chunkHash).foldl cacheAdd
      { s with progressSet := s.progressSet \ keys.toFinset } := by
  induction keys generalizing s with
  | nil => simp
  | cons key rest ih =>
    have hsame : { s.finishKey key with
        progressSet := (s.finishKey key).progressSet \ rest.toFinset } =
        cacheAdd { s with progressSet := s.progressSet \ (key :: rest).toFinset } key.chunkHash := by
      have hset : s.progressSet.erase key \ rest.toFinset =
          s.progressSet \ (key :: rest).toFinset := by
        ext x
        simp [and_assoc, and_left_comm]
      rw [finishKey, cacheAdd, cacheAdd]
      split_ifs <;> simp [hset]
    rw [foldl_cons, ih, hsame, map_cons, foldl_cons]

structure Done (s s' : NixlDynamic B) (put : List (NixlPutItem B)) : Prop where
  frame : ∃ storage cache, s' = { s with
    storage := storage
    keyPresenceCache := cache
    progressSet := s.progressSet \ (put.map NixlPutItem.key).toFinset
    completed := s.completed ++ put.map fun item => (item.key, item.bytes) }
  storage : ∀ name bytes, s'.storage name = some bytes → s.storage name = some bytes ∨
    ∃ item ∈ put, formatObjectKey item.key = name ∧ item.bytes = bytes
  cache : ∀ chunkHash ∈ s'.keyPresenceCache, chunkHash ∈ s.keyPresenceCache ∨
    s.enablePresenceCache = true ∧ ∃ item ∈ put, item.key.chunkHash = chunkHash

theorem done_transferDone (s : NixlDynamic B) (put : List (NixlPutItem B)) :
    Done s (s.transferDone put) put := by
  obtain ⟨storage, hstore, hstorage⟩ := foldl_store put s
  rw [transferDone, hstore, foldl_finishKey]
  obtain ⟨cache, hadd, hcache⟩ := foldl_cacheAdd
    ((put.map NixlPutItem.key).map chunkHash)
    { s with
      storage := storage
      completed := s.completed ++ put.map fun item => (item.key, item.bytes)
      progressSet := s.progressSet \ (put.map NixlPutItem.key).toFinset }
  rw [hadd]
  refine ⟨⟨storage, cache, rfl⟩, hstorage, fun chunkHash h => ?_⟩
  have := hcache chunkHash h
  simpa using this

variable {s' : NixlDynamic B}

theorem Done.withRefs (h : Done s s' put) (refs : ℕ → ℕ) :
    Done { s with refs := refs } { s' with refs := refs } put := by
  obtain ⟨⟨storage, cache, rfl⟩, hstorage, hcache⟩ := h
  exact ⟨⟨storage, cache, rfl⟩, hstorage, hcache⟩

variable {submitted posted : List (List (NixlPutItem B))}

theorem Inv.done (h : s.Inv) (refs : ℕ → ℕ) (hputs : s.puts.Perm (put :: (submitted ++ posted)))
    (hrefs : ∀ obj, refs obj =
      if s.asyncMode then (memObjs (submitted ++ posted)).count obj else 0)
    (hdone : Done { s with submitted := submitted, posted := posted, refs := refs } s' put) :
    s'.Inv := by
  obtain ⟨⟨storage, cache, rfl⟩, hstorage, hcache⟩ := hdone
  refine ⟨⟨fun key hkey => ?_, fun e he => ?_, hrefs, h.nothingLeft, fun key hkey => ?_⟩,
    fun name bytes hname => ?_, fun chunkHash hhash => ?_⟩
  · exact (h.found key hkey).imp fun _ => mem_append_left _
  · exact mem_append_left _ (h.answered e he)
  · dsimp only at hkey
    rw [Finset.mem_sdiff, mem_toFinset, mem_map] at hkey
    obtain ⟨other, hother, item, hitem, hsame⟩ := h.progress key hkey.1
    rcases mem_cons.mp (hputs.subset hother) with rfl | hother
    · exact absurd ⟨item, hitem, hsame⟩ hkey.2
    · exact ⟨other, hother, item, hitem, hsame⟩
  · rcases hstorage name bytes hname with hold | ⟨item, hitem, hkey, rfl⟩
    · exact (h.stored name bytes hold).imp fun _ hk => ⟨hk.1, mem_append_left _ hk.2⟩
    · exact ⟨item.key, hkey, mem_append_right _ (mem_map.mpr ⟨item, hitem, rfl⟩)⟩
  · rcases hcache chunkHash hhash with hold | ⟨henabled, item, hitem, hkey⟩
    · obtain ⟨henabled, e, he, heq⟩ := h.cached chunkHash hold
      exact ⟨henabled, e, mem_append_left _ he, heq⟩
    · exact ⟨henabled, _, mem_append_right _ (mem_map.mpr ⟨item, hitem, rfl⟩), hkey⟩

variable {i : ℕ}

theorem perm_eraseIdx {puts : List (List (NixlPutItem B))} (hget : puts[i]? = some put) :
    puts.Perm (put :: puts.eraseIdx i) := by
  obtain ⟨hi, rfl⟩ := List.getElem?_eq_some_iff.mp hget
  exact (getElem_cons_eraseIdx_perm hi).symm

theorem count_memObjs_perm {puts puts' : List (List (NixlPutItem B))} (h : puts.Perm puts')
    (obj : ℕ) : (memObjs puts).count obj = (memObjs puts').count obj :=
  (h.flatten.map NixlPutItem.memObj).count_eq obj

theorem count_memObjs_cons (put : List (NixlPutItem B)) (puts : List (List (NixlPutItem B)))
    (obj : ℕ) :
    (memObjs (put :: puts)).count obj = (memObjs [put]).count obj + (memObjs puts).count obj := by
  simp [memObjs]

theorem Inv.batchedSubmitPutTask (h : s.Inv) (put : List (NixlPutItem B)) :
    (s.batchedSubmitPutTask put).Inv := by
  have hperm : (s.batchedSubmitPutTask put).puts.Perm (put :: s.puts) := by
    simp only [puts, NixlDynamic.batchedSubmitPutTask, append_assoc, singleton_append]
    exact perm_middle
  refine ⟨⟨h.found, h.answered, fun obj => ?_, h.nothingLeft, fun key hkey => ?_⟩, h.stored, h.cached⟩
  · rw [count_memObjs_perm hperm, count_memObjs_cons]
    change s.refs obj + (if s.asyncMode then (memObjs [put]).count obj else 0) =
      if s.asyncMode then _ else 0
    rw [h.refs]
    split_ifs
    · exact Nat.add_comm _ _
    · rfl
  · rcases Finset.mem_union.mp hkey with hold | hnew
    · obtain ⟨other, hother, hitem⟩ := h.progress key hold
      exact ⟨other, hperm.symm.subset (mem_cons_of_mem _ hother), hitem⟩
    · obtain ⟨item, hitem, hsame⟩ := mem_map.mp (mem_toFinset.mp hnew)
      exact ⟨put, hperm.symm.subset mem_cons_self, item, hitem, hsame⟩

theorem Inv.requeue (h : s.Inv) (hperm : s.puts.Perm (submitted ++ posted)) :
    Inv { s with submitted := submitted, posted := posted } := by
  refine ⟨⟨h.found, h.answered, fun obj => ?_, h.nothingLeft, fun key hkey => ?_⟩, h.stored, h.cached⟩
  · refine (h.refs obj).trans ?_
    rw [count_memObjs_perm hperm]
    rfl
  · obtain ⟨other, hother, hitem⟩ := h.progress key hkey
    exact ⟨other, hperm.subset hother, hitem⟩

variable {ending : NixlEnding}

theorem Inv.memToStorage (h : s.Inv) (hget : s.submitted[i]? = some put)
    (hends : put ≠ [] → ending = .done ∨ s.asyncMode = true ∧ ending = .err) :
    ({ s with submitted := s.submitted.eraseIdx i }.memToStorage put ending).Inv := by
  have hperm : s.puts.Perm (put :: (s.submitted.eraseIdx i ++ s.posted)) :=
    (perm_eraseIdx hget).append_right s.posted
  have hposted : Inv { s with
      submitted := s.submitted.eraseIdx i, posted := s.posted ++ [put] } := by
    refine h.requeue (hperm.trans ?_)
    rw [← append_assoc]
    exact (perm_append_singleton _ _).symm
  rw [NixlDynamic.memToStorage.eq_def]
  by_cases hempty : put = []
  · subst hempty
    rw [if_pos isEmpty_nil]
    refine ⟨⟨h.found, h.answered, fun obj => ?_, h.nothingLeft, fun key hkey => ?_⟩, h.stored,
      h.cached⟩
    · refine (h.refs obj).trans ?_
      rw [count_memObjs_perm hperm, count_memObjs_cons]
      simp [memObjs, puts]
    · obtain ⟨other, hother, item, hitem, hsame⟩ := h.progress key hkey
      rcases mem_cons.mp (hperm.subset hother) with rfl | hother
      · exact absurd hitem not_mem_nil
      · exact ⟨other, hother, item, hitem, hsame⟩
  · rw [if_neg (by simpa using hempty)]
    rcases hends hempty with rfl | ⟨hasync, rfl⟩
    · dsimp only
      by_cases hasync : s.asyncMode = true
      · rw [if_pos hasync]
        exact hposted
      · rw [if_neg hasync]
        refine h.done s.refs hperm (fun obj => ?_) (done_transferDone _ put)
        rw [h.refs, if_neg hasync, if_neg hasync]
    · dsimp only
      rw [if_pos hasync]
      exact hposted

theorem Inv.waitForTransfer (h : s.Inv) (hget : s.posted[i]? = some put) :
    ({ s with posted := s.posted.eraseIdx i }.waitForTransfer put .done).Inv := by
  have hperm : s.puts.Perm (put :: (s.submitted ++ s.posted.eraseIdx i)) :=
    ((perm_eraseIdx hget).append_left s.submitted).trans perm_middle
  rw [NixlDynamic.waitForTransfer, if_pos rfl]
  have hdone := done_transferDone { s with posted := s.posted.eraseIdx i } put
  have hsame : ({ s with posted := s.posted.eraseIdx i }.transferDone put).refs = s.refs := by
    obtain ⟨storage, cache, heq⟩ := hdone.frame
    rw [heq]
  rw [hsame]
  refine h.done _ hperm (fun obj => ?_) (hdone.withRefs _)
  rw [h.refs, count_memObjs_perm hperm, count_memObjs_cons]
  split_ifs
  · exact Nat.add_sub_cancel_left _ _
  · exact Nat.zero_sub _

variable {keys : List CacheEngineKey}

theorem readAll_spec {objs : List (CacheEngineKey × B)} (hread : s.readAll keys = some objs) :
    (∀ e ∈ objs, e.1 ∈ keys ∧ s.storage (formatObjectKey e.1) = some e.2) ∧
      ∀ key ∈ keys, ∃ e ∈ objs, e.1 = key := by
  induction keys generalizing objs with
  | nil =>
    obtain rfl := Option.some.inj hread
    simp
  | cons key rest ih =>
    rw [readAll, mapM_cons] at hread
    cases hbytes : s.storage (formatObjectKey key) with
    | none => simp [hbytes] at hread
    | some bytes =>
      cases hrest : s.readAll rest with
      | none =>
        rw [readAll] at hrest
        simp [hbytes, hrest] at hread
      | some others =>
        obtain ⟨hsound, hall⟩ := ih hrest
        rw [readAll] at hrest
        obtain rfl : (key, bytes) :: others = objs := by simpa [hbytes, hrest] using hread
        refine ⟨?_, ?_⟩
        · rintro e (_ | ⟨_, he⟩)
          · exact ⟨mem_cons_self, hbytes⟩
          · exact ⟨mem_cons_of_mem _ (hsound e he).1, (hsound e he).2⟩
        · rintro k (_ | ⟨_, hk⟩)
          · exact ⟨_, mem_cons_self, rfl⟩
          · exact (hall k hk).imp fun e he => ⟨mem_cons_of_mem _ he.1, he.2⟩

theorem Inv.storageToMem (h : s.Inv) (hends : ending = .done ∨ ending = .backendError)
    (hapart : ∀ key ∈ keys, ∀ e ∈ s.completed,
      formatObjectKey e.1 = formatObjectKey key → e.1 = key) :
    (s.storageToMem keys ending).Inv := by
  have hcaught : ((keys.map chunkHash).foldl cacheDiscard s).Inv := by
    obtain ⟨cache, hsub, heq⟩ := foldl_cacheDiscard (keys.map chunkHash) s
    rw [heq]
    exact ⟨⟨h.found, h.answered, h.refs, h.nothingLeft, h.progress⟩, h.stored,
      fun chunkHash hhash => h.cached chunkHash (hsub hhash)⟩
  rw [NixlDynamic.storageToMem.eq_def]
  rcases hends with rfl | rfl
  · dsimp only
    cases hread : s.readAll keys with
    | none => exact hcaught
    | some objs =>
      obtain ⟨hsound, hall⟩ := readAll_spec hread
      have hput : ∀ e ∈ objs, e ∈ s.completed := by
        intro e he
        obtain ⟨hkey, hbytes⟩ := hsound e he
        obtain ⟨key, hname, hcompleted⟩ := h.stored _ _ hbytes
        obtain rfl := hapart e.1 hkey _ hcompleted hname
        exact hcompleted
      obtain ⟨cache, heq, hcache⟩ := foldl_cacheAdd (keys.map chunkHash) s
      dsimp only
      rw [heq]
      refine ⟨⟨h.found, fun e he => ?_, h.refs, h.nothingLeft, h.progress⟩, h.stored,
        fun chunkHash hhash => ?_⟩
      · exact (mem_append.mp he).elim (h.answered e) (hput e)
      · rcases hcache chunkHash hhash with hold | ⟨henabled, hnew⟩
        · exact h.cached chunkHash hold
        · obtain ⟨key, hkey, rfl⟩ := mem_map.mp hnew
          obtain ⟨e, he, rfl⟩ := hall key hkey
          exact ⟨henabled, e, hput e he, rfl⟩
  · exact hcaught

theorem Inv.contains (h : s.Inv) {key : CacheEngineKey} (queryFails : Bool) (hasked : s.Asked key) :
    (s.contains key queryFails).Inv := by
  have hadd : (∃ bytes, (key, bytes) ∈ s.completed) →
      Inv { s with found := s.found ++ [key] } := fun hput =>
    ⟨⟨fun k hk => (mem_append.mp hk).elim (h.found k) fun hk =>
      mem_singleton.mp hk ▸ hput, h.answered, h.refs, h.nothingLeft, h.progress⟩, h.stored,
      h.cached⟩
  rw [NixlDynamic.contains]
  split_ifs with hprogress hcached hstored
  · exact h
  · obtain ⟨henabled, hhash⟩ : s.enablePresenceCache = true ∧
      key.chunkHash ∈ s.keyPresenceCache := by simpa [cacheContains] using hcached
    refine hadd (hasked.resolve_right fun hapart => ?_)
    obtain ⟨_, e, he, heq⟩ := h.cached _ hhash
    exact (hapart e he).2 henabled heq
  · rw [Bool.and_eq_true, Option.isSome_iff_exists] at hstored
    obtain ⟨bytes, hbytes⟩ := hstored.2
    have hput : ∃ bytes, (key, bytes) ∈ s.completed := by
      refine hasked.resolve_right fun hapart => ?_
      obtain ⟨k, hname, hk⟩ := h.stored _ _ hbytes
      exact (hapart _ hk).1 hname
    have hnew := hadd hput
    rw [cacheAdd]
    split_ifs with henabled
    · refine ⟨⟨hnew.found, h.answered, h.refs, h.nothingLeft, h.progress⟩, h.stored,
        fun chunkHash hhash => ?_⟩
      rcases Finset.mem_insert.mp hhash with rfl | hold
      · obtain ⟨b, hb⟩ := hput
        exact ⟨henabled, _, hb, rfl⟩
      · exact h.cached chunkHash hold
    · exact hnew
  · exact h

theorem inv_exec (s : NixlDynamic B) (event : NixlDynamicEvent B) (h : s.Inv)
    (hsound : s.Sound event) : (s.exec event).Inv := by
  cases event with
  | batchedSubmitPutTask put => exact h.batchedSubmitPutTask put
  | memToStorage i ending =>
    rw [exec]
    cases hget : s.submitted[i]? with
    | none => exact h
    | some put => exact h.memToStorage hget (hsound put hget)
  | waitForTransfer i ending =>
    rw [exec]
    cases hget : s.posted[i]? with
    | none => exact h
    | some put =>
      obtain rfl := hsound put hget
      exact h.waitForTransfer hget
  | storageToMem keys hasRoom ending =>
    rw [exec]
    split_ifs with hnone
    · exact h
    · obtain ⟨hne, hroom⟩ : keys ≠ [] ∧ hasRoom = true := by simpa using hnone
      obtain ⟨hends, hapart⟩ := hsound hne hroom
      exact h.storageToMem hends hapart
  | contains key queryFails => exact h.contains queryFails hsound
  | remove key =>
    obtain ⟨cache, hsub, heq⟩ := foldl_cacheDiscard [key.chunkHash] s
    change (s.cacheDiscard key.chunkHash).Inv
    rw [foldl_cons, foldl_nil] at heq
    rw [heq]
    exact ⟨⟨h.found, h.answered, h.refs, h.nothingLeft, h.progress⟩, h.stored,
      fun chunkHash hhash => h.cached chunkHash (hsub hhash)⟩

open Execution

def keyOf (modelName : List Char) (workerId chunkHash : ℕ) : CacheEngineKey :=
  ⟨modelName, 2, workerId, chunkHash, "half".toList, []⟩

end NixlDynamic

end LMCache
