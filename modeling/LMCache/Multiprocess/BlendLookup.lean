import LMCache.Distributed.ObjectKey
import LMCache.Distributed.PrefetchTask
import LMCache.Multiprocess.BlendLocks
import LMCache.Multiprocess.SessionCalls

namespace LMCache

open Distributed LookupState List Slice IPCCacheEngineKey

structure BlendCall (H B I : Type) where
  hasher : TokenHasher H B
  blendHashPrefix : H
  env : PrecisionEnv
  key : IPCCacheEngineKey
  isLookup : key.workerId = none
  matched : List (ℕ × ℕ)
  cbGpuContextMeta : List (I × String × ℕ)
  instanceId : ℕ → I

structure BlendHandle where
  range : ℕ × ℕ
  l1PrefixHitCount : ℕ
  l2Result : ℕ
  answered : Bool

inductive WorkerPhase (K : Type) where
  | waiting
  | launched (keys : List K) (succeeded : Bool)
  | returned
  | raised
deriving DecidableEq

inductive LookupPhase (K : Type) where
  | submitting (skipped : List K)
  | reported (foundRanges : List (ℕ × ℕ))
deriving DecidableEq

-- mine counts the read locks that the lookup has taken and that have not been given back
structure BlendBalance (K : Type) where
  l1 : L1Manager K
  now : ℕ
  mine : K → ℕ
  handles : List BlendHandle
  phase : LookupPhase K
  workers : ℕ → WorkerPhase K

inductive BlendEvent (K : Type) where
  | submit (l2Resident : Option (K → Bool))
  | releaseSkipped
  | answer (i : ℕ) (l1 : L1Manager K) (now : ℕ)
  | report
  | retrieve (workerId : ℕ) (copyRaises : Bool)
  | finishReadPrefetched (workerId : ℕ)
  | others (l1 : L1Manager K) (now : ℕ)

def BlendHandle.found (h : BlendHandle) : ℕ := h.l1PrefixHitCount + h.l2Result

namespace BlendCall

variable {H B I : Type} [DecidableEq I]

def worldSize (call : BlendCall H B I) : ℕ := call.key.worldSize

def createTempIpcKeyByRange (key : IPCCacheEngineKey) (range : ℕ × ℕ) : IPCCacheEngineKey :=
  { key with
    tokenIds := slice key.tokenIds range.1 range.2
    start := range.1
    stop := range.2 }

def computeChunkHashes (call : BlendCall H B I) (tokenIds : List ℕ) : List B :=
  { call.hasher with noneHash := call.blendHashPrefix }.computeChunkHashes tokenIds 0 none

variable (call : BlendCall H B I)

def defaultTier : Tier :=
  if call.env.policy = .allBase then .base else .full

def objectKeys (key : IPCCacheEngineKey) (range : ℕ × ℕ) : List (ObjectKey B) :=
  let tempIpcKey := createTempIpcKeyByRange key range
  (call.computeChunkHashes tempIpcKey.tokenIds).flatMap fun chunkHash =>
    tempIpcKey.chunkKeys call.env (chunkHash, call.defaultTier)

def paragraphs : List (ℕ × ℕ) :=
  if call.cbGpuContextMeta.any fun c => c.2 == (call.key.modelName, call.worldSize) then
    call.matched
  else []

def registered (workerId : ℕ) : Bool :=
  call.cbGpuContextMeta.any fun c => c.1 == call.instanceId workerId

def foundRange (h : BlendHandle) : Option (ℕ × ℕ) :=
  let foundCount := h.found / call.worldSize
  if 0 < foundCount then some (h.range.1, h.range.1 + foundCount * call.hasher.chunkSize) else none

def ownKeys (foundRanges : List (ℕ × ℕ)) (workerId : ℕ) : List (List (ObjectKey B)) :=
  foundRanges.map (call.objectKeys (call.key.ofWorker workerId))

end BlendCall

namespace BlendBalance

open L1Manager

variable {H B I K : Type} [DecidableEq I] [DecidableEq K]

def start (l1 : L1Manager K) (now : ℕ) : BlendBalance K :=
  ⟨l1, now, fun _ => 0, [], .submitting [], fun _ => .waiting⟩

variable (s : BlendBalance K)

def l1Call (op : L1Step K) : BlendBalance K :=
  { s with
    l1 := s.l1.step s.now op
    mine := s.l1.charge s.now op s.mine }

def nextParagraph (call : BlendCall H B I) (s : BlendBalance K) : Option (ℕ × ℕ) :=
  match s.phase with
  | .submitting [] => call.paragraphs[s.handles.length]?
  | _ => none

def submitPrefetchTask (range : ℕ × ℕ) (keys : List K) (l2Resident : Option (K → Bool)) :
    BlendBalance K :=
  let l1ReadResult := (s.l1.reserveRead s.now keys 0).1
  let hits := hitCount l1ReadResult keys
  let remainingKeys := keys.drop hits
  let loadable := (l2Resident.map fun resident => (remainingKeys.takeWhile resident).length).getD 0
  { s.l1Call (.reserveRead keys 0) with
    handles := s.handles ++ [⟨range, hits, loadable, remainingKeys.isEmpty || l2Resident.isNone⟩]
    phase := .submitting (skippedKeys l1ReadResult keys) }

def calledWith (call : BlendCall H B I) (s : BlendBalance K) (workerId : ℕ) :
    Option (List (ℕ × ℕ)) :=
  match s.phase, s.workers workerId with
  | .reported foundRanges, .waiting => if workerId < call.worldSize then some foundRanges else none
  | _, _ => none

def firstBad (s : BlendBalance K) : List (List K) → Option (List K)
  | [] => none
  | keys :: rest =>
      let readResults := s.l1.unsafeRead s.now keys
      if readResults.values.all fun result => result.2.isSome then s.firstBad rest
      else some (goodKeys readResults)

def setWorker (workerId : ℕ) (phase : WorkerPhase K) : BlendBalance K :=
  { s with workers := Function.update s.workers workerId phase }

def cbRetrievePreComputed (workerId : ℕ) (registered : Bool) (objKeysForParagraphs : List (List K))
    (copyRaises : Bool) : BlendBalance K :=
  if !registered then s.setWorker workerId .raised
  else
    match s.firstBad objKeysForParagraphs with
    | some good =>
        (s.l1Call (.finishRead good 0)).setWorker workerId (.launched objKeysForParagraphs.flatten false)
    | none => s.setWorker workerId (.launched objKeysForParagraphs.flatten !copyRaises)

end BlendBalance

namespace BlendBalance

open L1Manager

variable {H B I : Type} [DecidableEq I] [DecidableEq B] (call : BlendCall H B I)
  (s : BlendBalance (ObjectKey B))

def exec :
    BlendEvent (ObjectKey B) → BlendBalance (ObjectKey B)
  | .submit l2Resident =>
      match s.nextParagraph call with
      | some range => s.submitPrefetchTask range (call.objectKeys call.key range) l2Resident
      | none => s
  | .releaseSkipped =>
      match s.phase with
      | .submitting skipped =>
          if skipped.isEmpty then s
          else { s.l1Call (.finishRead skipped 0) with phase := .submitting [] }
      | .reported _ => s
  | .answer i l1 now =>
      match s.handles[i]? with
      | some h =>
          if h.answered then s
          else
            { s with
              l1 := l1
              now := now
              mine := fun k => s.mine k + (((call.objectKeys call.key h.range).drop
                h.l1PrefixHitCount).take h.l2Result).count k
              handles := s.handles.set i { h with answered := true } }
      | none => s
  | .report =>
      match s.phase with
      | .submitting [] =>
          if s.handles.length = call.paragraphs.length ∧ s.handles.all BlendHandle.answered then
            { s with phase := .reported (s.handles.filterMap call.foundRange) }
          else s
      | _ => s
  | .retrieve workerId copyRaises =>
      match s.calledWith call workerId with
      | some foundRanges =>
          s.cbRetrievePreComputed workerId (call.registered workerId)
            (call.ownKeys foundRanges workerId) copyRaises
      | none => s
  | .finishReadPrefetched workerId =>
      match s.workers workerId with
      | .launched keys _ => (s.l1Call (.finishRead keys 0)).setWorker workerId .returned
      | _ => s
  | .others l1 now => { s with l1 := l1, now := now }

def givesBack :
    BlendEvent (ObjectKey B) → List (ObjectKey B)
  | .releaseSkipped =>
      match s.phase with
      | .submitting skipped => skipped
      | .reported _ => []
  | .retrieve workerId _ =>
      match s.calledWith call workerId with
      | some foundRanges =>
          if call.registered workerId then (s.firstBad (call.ownKeys foundRanges workerId)).getD []
          else []
      | none => []
  | .finishReadPrefetched workerId =>
      match s.workers workerId with
      | .launched keys _ => keys
      | _ => []
  | _ => []

def ReleasesOwn (event : BlendEvent (ObjectKey B)) : Prop :=
  ∀ k, (s.l1.readReturned s.now (.finishRead (s.givesBack call event) 0)).count k ≤ s.mine k

def Undisturbed :
    BlendEvent (ObjectKey B) → Prop
  | .submit l2Resident => ∀ k, 0 < (s.exec call (.submit l2Resident)).mine k →
      ∀ e, (s.exec call (.submit l2Resident)).l1.objects.get? k = some e → e.Live s.now
  | .answer i l1 now => ∀ k, l1.Backed now (s.exec call (.answer i l1 now)).mine k
  | .others l1 now => ∀ k, l1.Backed now s.mine k
  | _ => True

def Completed : Prop :=
  (∃ foundRanges, s.phase = .reported foundRanges) ∧
    ∀ workerId < call.worldSize, s.workers workerId = .returned ∨ s.workers workerId = .raised

def resident (s : BlendBalance (ObjectKey B)) (keys : List (ObjectKey B))
    (l2Resident : Option (ObjectKey B → Bool)) : ℕ :=
  let leading := (keys.takeWhile (s.l1.readable s.now)).length
  leading + (l2Resident.map fun resident => ((keys.drop leading).takeWhile resident).length).getD 0

def Whole :
    BlendEvent (ObjectKey B) → Prop
  | .submit l2Resident => ∀ range, s.nextParagraph call = some range →
      call.worldSize ∣ s.resident (call.objectKeys call.key range) l2Resident
  | .retrieve workerId _ => ∀ foundRanges, s.calledWith call workerId = some foundRanges →
      call.registered workerId = true ∨ foundRanges = []
  | _ => True

end BlendBalance

namespace BlendCall

variable {H B I : Type} [DecidableEq B] (call : BlendCall H B I)

def chunkHashes (range : ℕ × ℕ) : List B :=
  call.computeChunkHashes (slice call.key.tokenIds range.1 range.2)

def workerKey (workerId : ℕ) (chunkHash : B) : ObjectKey B :=
  call.key.objectKey call.env chunkHash call.defaultTier workerId

def expanded (chunkHash : B) : List (ObjectKey B) :=
  (range call.worldSize).map fun workerId => call.workerKey workerId chunkHash

variable (call : BlendCall H B I) (range : ℕ × ℕ)

omit [DecidableEq B] in
theorem objectKeys_lookup :
    call.objectKeys call.key range = (call.chunkHashes range).flatMap call.expanded := by
  have hworkers : (createTempIpcKeyByRange call.key range).workers = List.range call.worldSize :=
    workers_lookup call.isLookup
  refine congrArg (flatMap · (call.chunkHashes range)) (funext fun chunkHash => ?_)
  rw [chunkKeys, hworkers]
  rfl

omit [DecidableEq B] in
theorem objectKeys_ofWorker (workerId : ℕ) (range : ℕ × ℕ) :
    call.objectKeys (call.key.ofWorker workerId) range =
      (call.chunkHashes range).map (call.workerKey workerId) := by
  rw [map_eq_flatMap]
  rfl

omit [DecidableEq B] in
theorem length_objectKeys : (call.objectKeys call.key range).length =
    (call.chunkHashes range).length * call.worldSize := by
  rw [objectKeys_lookup]
  induction call.chunkHashes range with
  | nil => simp
  | cons chunkHash rest ih =>
    rw [flatMap_cons, length_append, ih, length_cons, Nat.succ_mul]
    simp [expanded, Nat.add_comm]

omit [DecidableEq B] in
theorem take_expanded (q : ℕ) (hashes : List B) :
    (hashes.flatMap call.expanded).take (q * call.worldSize) =
      (hashes.take q).flatMap call.expanded := by
  induction q generalizing hashes with
  | zero => simp
  | succ q ih =>
    cases hashes with
    | nil => simp
    | cons chunkHash rest =>
      have hlength : (call.expanded chunkHash).length = call.worldSize := by simp [expanded]
      have hsplit : (q + 1) * call.worldSize =
          (call.expanded chunkHash).length + q * call.worldSize := by
        rw [hlength, Nat.succ_mul, Nat.add_comm]
      rw [flatMap_cons, take_succ_cons, flatMap_cons, hsplit, take_length_add_append, ih]

theorem count_expanded (hashes : List B) (k : ObjectKey B) :
    (hashes.flatMap call.expanded).count k =
      ∑ workerId ∈ Finset.range call.worldSize, (hashes.map (call.workerKey workerId)).count k := by
  induction hashes with
  | nil => simp
  | cons chunkHash rest ih =>
    have hfirst : (call.expanded chunkHash).count k =
        ∑ workerId ∈ Finset.range call.worldSize, [call.workerKey workerId chunkHash].count k := by
      rw [expanded]
      induction call.worldSize with
      | zero => simp
      | succ n ihn => rw [range_succ, map_append, count_append, ihn,
          Finset.sum_range_succ, map_singleton]
    rw [flatMap_cons, count_append, ih, hfirst, ← Finset.sum_add_distrib]
    refine Finset.sum_congr rfl fun workerId _ => ?_
    rw [map_cons, ← count_append, singleton_append]

omit [DecidableEq B] in
theorem chunkHashes_found {q : ℕ} (hq : q ≤ (call.chunkHashes range).length) :
    call.chunkHashes (range.1, range.1 + q * call.hasher.chunkSize) =
      (call.chunkHashes range).take q := by
  set hasher : TokenHasher H B := { call.hasher with noneHash := call.blendHashPrefix } with hhasher
  have hall : ∀ r : ℕ × ℕ, call.chunkHashes r =
      (List.range ((slice call.key.tokenIds r.1 r.2).length / call.hasher.chunkSize)).map
        (hasher.chunkHash (slice call.key.tokenIds r.1 r.2)) := by
    intro r
    have h := hasher.computeChunkHashes_eq (slice call.key.tokenIds r.1 r.2) 0 none
    rw [Nat.zero_mul] at h
    rw [chunkHashes, computeChunkHashes, ← hhasher, h, range_eq_range']
    rfl
  rw [hall, length_map, length_range, Nat.le_div_iff_mul_le call.hasher.chunkSizePos] at hq
  have hslice : slice call.key.tokenIds range.1 (range.1 + q * call.hasher.chunkSize) =
      (slice call.key.tokenIds range.1 range.2).take (q * call.hasher.chunkSize) := by
    rw [slice, slice, length_drop, length_take] at *
    rw [drop_take, drop_take, take_take]
    congr 1
    omega
  have hlength : ((slice call.key.tokenIds range.1 range.2).take
      (q * call.hasher.chunkSize)).length / call.hasher.chunkSize = q := by
    rw [length_take, Nat.min_eq_left hq, Nat.mul_div_cancel _ call.hasher.chunkSizePos]
  rw [hall, hall range]
  dsimp only
  rw [hslice, hlength, ← map_take, take_range, Nat.min_eq_left
    ((Nat.le_div_iff_mul_le call.hasher.chunkSizePos).mpr hq)]
  refine map_congr_left fun i hi => congrArg hasher.hashToBytes (hasher.rollingHash_congr ?_)
  have hle : (i + 1) * call.hasher.chunkSize ≤ q * call.hasher.chunkSize :=
    Nat.mul_le_mul_right _ (mem_range.mp hi)
  exact take_take.trans (congrArg (take · _) (Nat.min_eq_left hle))

def leftover (h : BlendHandle) : List (ObjectKey B) :=
  ((call.objectKeys call.key h.range).take h.found).drop (h.found / call.worldSize * call.worldSize)

def Sound (h : BlendHandle) : Prop := h.found ≤ (call.objectKeys call.key h.range).length

variable {call} {h : BlendHandle} {handles : List BlendHandle}

omit [DecidableEq B] in
theorem Sound.chunks_le (hsound : call.Sound h) :
    h.found / call.worldSize ≤ (call.chunkHashes h.range).length := by
  rw [Sound, length_objectKeys] at hsound
  exact Nat.div_le_of_le_mul (by rwa [Nat.mul_comm])

omit [DecidableEq B] in
theorem Sound.leftover_eq_nil_iff (hsound : call.Sound h) :
    call.leftover h = [] ↔ call.worldSize ∣ h.found := by
  have hmod := Nat.div_add_mod' h.found call.worldSize
  rw [← length_eq_zero_iff, leftover, length_drop, length_take,
    Nat.min_eq_left hsound, Nat.dvd_iff_mod_eq_zero]
  omega

theorem count_found (h : BlendHandle) (k : ObjectKey B) :
    ((call.objectKeys call.key h.range).take h.found).count k =
      (call.leftover h).count k + ∑ workerId ∈ Finset.range call.worldSize,
        (((call.chunkHashes h.range).take (h.found / call.worldSize)).map
          (call.workerKey workerId)).count k := by
  have hle : h.found / call.worldSize * call.worldSize ≤ h.found := Nat.div_mul_le_self _ _
  rw [← count_expanded, ← take_expanded, ← objectKeys_lookup, leftover]
  have hwhole : (call.objectKeys call.key h.range).take (h.found / call.worldSize * call.worldSize) =
      ((call.objectKeys call.key h.range).take h.found).take
        (h.found / call.worldSize * call.worldSize) := by
    rw [take_take, Nat.min_eq_left hle]
  rw [hwhole, ← count_append, List.Perm.count_eq perm_append_comm, take_append_drop]

omit [DecidableEq B] in
theorem ownKeys_found (hsound : ∀ h ∈ handles, call.Sound h) (workerId : ℕ) :
    (call.ownKeys (handles.filterMap call.foundRange) workerId).flatten =
      handles.flatMap fun h => ((call.chunkHashes h.range).take (h.found / call.worldSize)).map
        (call.workerKey workerId) := by
  induction handles with
  | nil => rfl
  | cons h rest ih =>
    obtain ⟨hfirst, hrest⟩ := forall_mem_cons.mp hsound
    have hsame := ih hrest
    rw [flatMap_cons, filterMap_cons, foundRange]
    by_cases hpos : 0 < h.found / call.worldSize
    · simp only [if_pos hpos]
      rw [ownKeys, map_cons, flatten_cons, objectKeys_ofWorker,
        chunkHashes_found call h.range hfirst.chunks_le]
      exact congrArg _ hsame
    · rw [Nat.eq_zero_of_not_pos hpos]
      simpa using hsame

theorem count_handles (hsound : ∀ h ∈ handles, call.Sound h) (k : ObjectKey B) :
    (handles.flatMap fun h => (call.objectKeys call.key h.range).take h.found).count k =
      (handles.flatMap call.leftover).count k + ∑ workerId ∈ Finset.range call.worldSize,
        (call.ownKeys (handles.filterMap call.foundRange) workerId).flatten.count k := by
  simp only [ownKeys_found hsound]
  clear hsound
  induction handles with
  | nil => simp
  | cons h rest ih =>
    simp only [flatMap_cons, count_append, ih, count_found, Finset.sum_add_distrib]
    omega

omit [DecidableEq B] in
theorem ownKeys_eq_nil_iff (hsound : ∀ h ∈ handles, call.Sound h) (workerId : ℕ) :
    (call.ownKeys (handles.filterMap call.foundRange) workerId).flatten = [] ↔
      handles.filterMap call.foundRange = [] := by
  rw [ownKeys_found hsound, flatMap_eq_nil_iff, filterMap_eq_nil_iff]
  refine forall₂_congr fun h hh => ?_
  have hle := (hsound h hh).chunks_le
  rw [map_eq_nil_iff, ← length_eq_zero_iff, length_take, Nat.min_eq_left hle, foundRange]
  by_cases hpos : 0 < h.found / call.worldSize
  · rw [if_pos hpos]
    simp [hpos.ne']
  · rw [if_neg hpos]
    simp [Nat.eq_zero_of_not_pos hpos]

end BlendCall

namespace BlendBalance

open L1Manager StorageManager BlendCall

variable {H B I : Type} [DecidableEq B] {call : BlendCall H B I}
  {s : BlendBalance (ObjectKey B)} {skipped : List (ObjectKey B)} {foundRanges : List (ℕ × ℕ)}

def held (call : BlendCall H B I) (h : BlendHandle) : List (ObjectKey B) :=
  (call.objectKeys call.key h.range).take
    (h.l1PrefixHitCount + if h.answered then h.l2Result else 0)

def owed (call : BlendCall H B I) (s : BlendBalance (ObjectKey B)) (foundRanges : List (ℕ × ℕ))
    (workerId : ℕ) : List (ObjectKey B) :=
  if s.workers workerId = .returned then [] else (call.ownKeys foundRanges workerId).flatten

structure Submitting (call : BlendCall H B I) (s : BlendBalance (ObjectKey B))
    (skipped : List (ObjectKey B)) : Prop where
  counts : ∀ k, s.mine k = (s.handles.flatMap (held call)).count k + skipped.count k
  waiting : ∀ workerId, s.workers workerId = .waiting

structure Reported (call : BlendCall H B I) (s : BlendBalance (ObjectKey B))
    (foundRanges : List (ℕ × ℕ)) : Prop where
  ranges : foundRanges = s.handles.filterMap call.foundRange
  answered : ∀ h ∈ s.handles, h.answered = true
  counts : ∀ k, s.mine k = (s.handles.flatMap call.leftover).count k +
    ∑ workerId ∈ Finset.range call.worldSize, (s.owed call foundRanges workerId).count k
  called : ∀ workerId, s.workers workerId ≠ .waiting → workerId < call.worldSize
  launched : ∀ workerId keys succeeded, s.workers workerId = .launched keys succeeded →
    keys = (call.ownKeys foundRanges workerId).flatten

def Stage (call : BlendCall H B I) (s : BlendBalance (ObjectKey B)) :
    LookupPhase (ObjectKey B) → Prop
  | .submitting skipped => s.Submitting call skipped
  | .reported foundRanges => s.Reported call foundRanges

structure Inv (call : BlendCall H B I) (s : BlendBalance (ObjectKey B)) : Prop where
  backed : ∀ k, s.l1.Backed s.now s.mine k
  sound : ∀ h ∈ s.handles, call.Sound h
  stage : s.Stage call s.phase

theorem inv_start (call : BlendCall H B I) (l1 : L1Manager (ObjectKey B)) (now : ℕ) :
    (start l1 now).Inv call where
  backed _ hpos := absurd hpos (Nat.lt_irrefl 0)
  sound _ hh := absurd hh not_mem_nil
  stage := ⟨fun _ => rfl, fun _ => rfl⟩

variable {keys : List (ObjectKey B)}

theorem mine_finishRead (hbacked : ∀ k, s.l1.Backed s.now s.mine k)
    (hheld : ∀ k, keys.count k ≤ s.mine k) (k : ObjectKey B) :
    (s.l1Call (.finishRead keys 0)).mine k = s.mine k - keys.count k ∧
      (s.l1Call (.finishRead keys 0)).l1.Backed s.now (s.l1Call (.finishRead keys 0)).mine k := by
  have hone : keys.count k * (1 + validateExtraCount 0) = keys.count k := Nat.mul_one _
  have hcharge := charge_finishRead (hbacked k) (hone.trans_le (hheld k))
  rw [hone] at hcharge
  exact hcharge

theorem returned_le (hbacked : s.l1.Backed s.now s.mine k) (hheld : keys.count k ≤ s.mine k) :
    (s.l1.readReturned s.now (.finishRead keys 0)).count k ≤ s.mine k := by
  have hone : keys.count k * (1 + validateExtraCount 0) = keys.count k := Nat.mul_one _
  rw [count_readReturned_finishRead hbacked (by rw [hone]; exact hheld)]
  exact hheld

omit [DecidableEq B] in
theorem held_answered {h : BlendHandle} (hanswered : h.answered = true) :
    held call h = (call.objectKeys call.key h.range).take h.found := by
  rw [held, if_pos hanswered, BlendHandle.found]

theorem count_le_mine_skipped (hcounts : s.Submitting call skipped) (k : ObjectKey B) :
    skipped.count k ≤ s.mine k := by
  rw [hcounts.counts]
  exact Nat.le_add_left _ _

variable {workerId : ℕ}

theorem Reported.own_le_mine (h : s.Reported call foundRanges) (hworker : workerId < call.worldSize)
    (hwaits : s.workers workerId ≠ .returned) (k : ObjectKey B) :
    (call.ownKeys foundRanges workerId).flatten.count k ≤ s.mine k := by
  have hsplit := Finset.add_sum_erase _ (fun w => (s.owed call foundRanges w).count k)
    (Finset.mem_range.mpr hworker)
  have howed : s.owed call foundRanges workerId = (call.ownKeys foundRanges workerId).flatten :=
    if_neg hwaits
  rw [h.counts, ← hsplit, howed]
  omega

theorem Reported.setWorker (h : s.Reported call foundRanges) (hworker : workerId < call.worldSize)
    (hwaiting : s.workers workerId = .waiting) {phase : WorkerPhase (ObjectKey B)}
    (hphase : phase ≠ .returned) (hkeys : ∀ keys succeeded, phase = .launched keys succeeded →
      keys = (call.ownKeys foundRanges workerId).flatten) :
    (s.setWorker workerId phase).Reported call foundRanges where
  ranges := h.ranges
  answered := h.answered
  counts k := by
    rw [← Finset.sum_congr rfl fun w _ => ?_]
    · exact h.counts k
    · by_cases hw : w = workerId
      · simp [owed, BlendBalance.setWorker, hw, hwaiting, hphase]
      · simp [owed, BlendBalance.setWorker, hw]
  called w hw := by
    by_cases heq : w = workerId
    · exact heq ▸ hworker
    · exact h.called w (by simpa [BlendBalance.setWorker, heq] using hw)
  launched w keys succeeded hw := by
    by_cases heq : w = workerId
    · subst heq
      exact hkeys keys succeeded (by simpa [BlendBalance.setWorker] using hw)
    · exact h.launched w keys succeeded (by simpa [BlendBalance.setWorker, heq] using hw)

variable {succeeded : Bool}

theorem Reported.settle (h : s.Reported call foundRanges)
    (hlaunched : s.workers workerId = .launched keys succeeded)
    (hmine : ∀ k, (s.l1Call (.finishRead keys 0)).mine k = s.mine k - keys.count k) :
    ((s.l1Call (.finishRead keys 0)).setWorker workerId .returned).Reported call foundRanges where
  ranges := h.ranges
  answered := h.answered
  counts k := by
    have hworker := h.called workerId (by simp [hlaunched])
    have hkeys := h.launched workerId keys succeeded hlaunched
    have howed : s.owed call foundRanges workerId = keys := by
      rw [hkeys]
      exact if_neg (by simp [hlaunched])
    have hafter : ∀ w, (((s.l1Call (.finishRead keys 0)).setWorker workerId .returned).owed call
        foundRanges w).count k =
          Function.update (fun w => (s.owed call foundRanges w).count k) workerId 0 w := by
      intro w
      by_cases heq : w = workerId
      · simp [owed, BlendBalance.setWorker, heq]
      · simp [owed, BlendBalance.setWorker, heq, l1Call]
    have hsplit := Finset.add_sum_erase _ (fun w => (s.owed call foundRanges w).count k)
      (Finset.mem_range.mpr hworker)
    have hcounts := h.counts k
    rw [Finset.sum_congr rfl fun w _ => hafter w,
      Finset.sum_update_of_mem (Finset.mem_range.mpr hworker), ← Finset.erase_eq]
    change (s.l1Call (.finishRead keys 0)).mine k = (s.handles.flatMap call.leftover).count k + _
    rw [howed] at hsplit
    rw [hmine]
    omega
  called w hw := by
    by_cases heq : w = workerId
    · exact heq ▸ h.called workerId (by simp [hlaunched])
    · exact h.called w (by simpa [BlendBalance.setWorker, heq, l1Call] using hw)
  launched w keys' succeeded' hw := by
    by_cases heq : w = workerId
    · subst heq
      simp [BlendBalance.setWorker] at hw
    · exact h.launched w keys' succeeded' (by simpa [BlendBalance.setWorker, heq, l1Call] using hw)

theorem readLocked_of_backed {m : L1Manager (ObjectKey B)} {now : ℕ} {locks : ObjectKey B → ℕ}
    {k : ObjectKey B} (hbacked : m.Backed now locks k) (hpos : 0 < locks k) :
    m.readLocked now k = true := by
  obtain ⟨e, he, _, hle⟩ := backed_iff.mp hbacked hpos
  rw [readLocked, he, Option.any_some, TTLLock.isLocked_iff]
  omega

theorem firstBad_eq_none {paragraphs : List (List (ObjectKey B))}
    (hlocked : ∀ k ∈ paragraphs.flatten, s.l1.readLocked s.now k = true) :
    s.firstBad paragraphs = none := by
  induction paragraphs with
  | nil => rfl
  | cons keys rest ih =>
    rw [flatten_cons] at hlocked
    have hall := (allGood_iff s.l1 s.now keys).mpr fun k hk =>
      hlocked k (mem_append_left _ hk)
    rw [firstBad, if_pos hall]
    exact ih fun k hk => hlocked k (mem_append_right _ hk)

theorem Inv.submit (h : s.Inv call) (hphase : s.phase = .submitting []) (range : ℕ × ℕ)
    (l2Resident : Option (ObjectKey B → Bool))
    (hlive : ∀ k, 0 < (s.submitPrefetchTask range (call.objectKeys call.key range) l2Resident).mine k →
      ∀ e, (s.submitPrefetchTask range (call.objectKeys call.key range) l2Resident).l1.objects.get? k =
        some e → e.Live s.now) :
    (s.submitPrefetchTask range (call.objectKeys call.key range) l2Resident).Inv call := by
  have hstage : s.Submitting call [] := by
    have := h.stage
    rwa [hphase] at this
  generalize hkeys : call.objectKeys call.key range = keys at hlive ⊢
  have hhits := hitCount_reserveRead s.l1 s.now keys 0
  refine ⟨fun k => backed_reserveRead (h.backed k) (hlive k), ?_, ?_, ?_⟩
  · refine forall_mem_append.mpr ⟨h.sound, forall_mem_singleton.mpr ?_⟩
    have hle : hitCount (s.l1.reserveRead s.now keys 0).1 keys ≤ keys.length :=
      (takeWhile_sublist _).length_le
    rw [Sound, BlendHandle.found, hkeys]
    cases l2Resident with
    | none => simpa using hle
    | some resident =>
      have hrest := (takeWhile_sublist resident
        (l := keys.drop (hitCount (s.l1.reserveRead s.now keys 0).1 keys))).length_le
      rw [length_drop] at hrest
      simp only [Option.map_some, Option.getD_some]
      omega
  · intro k
    have hheld : ∀ answered : Bool, answered = ((keys.drop
        (hitCount (s.l1.reserveRead s.now keys 0).1 keys)).isEmpty || l2Resident.isNone) →
        held call ⟨range, hitCount (s.l1.reserveRead s.now keys 0).1 keys,
          (l2Resident.map fun resident => ((keys.drop (hitCount (s.l1.reserveRead s.now keys 0).1
            keys)).takeWhile resident).length).getD 0, answered⟩ =
          keys.take (hitCount (s.l1.reserveRead s.now keys 0).1 keys) := by
      intro answered hanswered
      rw [held, hkeys]
      cases answered with
      | false => rfl
      | true =>
        cases l2Resident with
        | none => rfl
        | some resident =>
          have hnil : keys.drop (hitCount (s.l1.reserveRead s.now keys 0).1 keys) = [] := by
            simpa using hanswered.symm
          simp [hnil]
    change s.l1.charge s.now (.reserveRead keys 0) s.mine k =
      ((s.handles ++ [_]).flatMap (held call)).count k + (skippedKeys _ keys).count k
    rw [charge_reserveRead, hstage.counts, flatMap_append, count_append,
      flatMap_singleton, hheld _ rfl, count_skippedKeys, hhits]
    have hone : keys.count k * (1 + validateExtraCount 0) = keys.count k := Nat.mul_one _
    have hsplit := congrArg (count k)
      (take_append_drop (keys.takeWhile (s.l1.readable s.now)).length keys)
    rw [count_append] at hsplit
    rw [hone]
    cases hread : s.l1.readable s.now k with
    | true => simp only [if_true, count_nil]; omega
    | false =>
      rw [count_take_of_not_readable hread]
      simp
  · exact hstage.waiting

theorem Inv.releaseSkipped (h : s.Inv call) (hphase : s.phase = .submitting skipped) :
    ({ s.l1Call (.finishRead skipped 0) with phase := .submitting [] } :
      BlendBalance (ObjectKey B)).Inv call := by
  have hstage : s.Submitting call skipped := by
    have := h.stage
    rwa [hphase] at this
  have hmine := mine_finishRead h.backed (count_le_mine_skipped hstage)
  refine ⟨fun k => (hmine k).2, h.sound, fun k => ?_, hstage.waiting⟩
  refine (hmine k).1.trans ?_
  rw [hstage.counts, Nat.add_sub_cancel]
  rfl

theorem Inv.answer (h : s.Inv call) {i : ℕ} {hd : BlendHandle} (hget : s.handles[i]? = some hd)
    (hopen : hd.answered = false) (l1 : L1Manager (ObjectKey B)) (now : ℕ)
    (hbacked : ∀ k, l1.Backed now (fun k => s.mine k + (((call.objectKeys call.key hd.range).drop
      hd.l1PrefixHitCount).take hd.l2Result).count k) k) :
    ({ s with
        l1 := l1
        now := now
        mine := fun k => s.mine k + (((call.objectKeys call.key hd.range).drop
          hd.l1PrefixHitCount).take hd.l2Result).count k
        handles := s.handles.set i { hd with answered := true } } :
      BlendBalance (ObjectKey B)).Inv call := by
  obtain ⟨hi, hat⟩ := List.getElem?_eq_some_iff.mp hget
  obtain ⟨pre, post, hhandles, _, hset⟩ :=
    @exists_of_set _ i { hd with answered := true } s.handles hi
  rw [hat] at hhandles
  refine ⟨hbacked, fun h' hh' => ?_, ?_⟩
  · have hmem := mem_or_eq_of_mem_set hh'
    rcases hmem with hmem | rfl
    · exact h.sound h' hmem
    · exact h.sound hd (mem_of_getElem? hget)
  · have hstage := h.stage
    change Stage call _ s.phase
    cases hphase : s.phase with
    | reported foundRanges =>
      rw [hphase] at hstage
      have := hstage.answered hd (mem_of_getElem? hget)
      simp [hopen] at this
    | submitting skipped =>
      rw [hphase] at hstage
      refine ⟨fun k => ?_, hstage.waiting⟩
      have hcounts := hstage.counts k
      have hnew : (held call { hd with answered := true }).count k = (held call hd).count k +
          (((call.objectKeys call.key hd.range).drop hd.l1PrefixHitCount).take hd.l2Result).count k := by
        rw [← count_append, held, held, hopen]
        exact congrArg (count k) take_add
      rw [hhandles] at hcounts
      simp only [flatMap_append, flatMap_cons, count_append] at hcounts
      simp only [hset, flatMap_append, flatMap_cons, count_append, hnew]
      omega

theorem Inv.report (h : s.Inv call) (hphase : s.phase = .submitting [])
    (hanswered : ∀ hd ∈ s.handles, hd.answered = true) :
    ({ s with phase := .reported (s.handles.filterMap call.foundRange) } :
      BlendBalance (ObjectKey B)).Inv call := by
  have hstage : s.Submitting call [] := by
    have := h.stage
    rwa [hphase] at this
  refine ⟨h.backed, h.sound, rfl, hanswered, fun k => ?_, fun w hw => ?_, fun w keys _ hw => ?_⟩
  · have howed : ∀ w, owed call { s with phase := .reported (s.handles.filterMap call.foundRange) }
        (s.handles.filterMap call.foundRange) w =
          (call.ownKeys (s.handles.filterMap call.foundRange) w).flatten :=
      fun w => if_neg (by simp [hstage.waiting w])
    have hheld : s.handles.flatMap (held call) =
        s.handles.flatMap fun hd => (call.objectKeys call.key hd.range).take hd.found :=
      flatMap_congr fun hd hhd => held_answered (hanswered hd hhd)
    simp only [howed]
    rw [hstage.counts, hheld, count_handles h.sound]
    rfl
  · exact absurd (hstage.waiting w) hw
  · exact absurd hw (by simp [hstage.waiting w])

theorem Inv.firstBad_ownKeys (h : s.Inv call) (hphase : s.phase = .reported foundRanges)
    (hworker : workerId < call.worldSize) (hwaiting : s.workers workerId = .waiting) :
    s.firstBad (call.ownKeys foundRanges workerId) = none := by
  have hstage : s.Reported call foundRanges := by
    have := h.stage
    rwa [hphase] at this
  refine firstBad_eq_none fun k hk => readLocked_of_backed (h.backed k) ?_
  exact (count_pos_iff.mpr hk).trans_le (hstage.own_le_mine hworker (by simp [hwaiting]) k)

theorem Inv.retrieve (h : s.Inv call) (hphase : s.phase = .reported foundRanges)
    (hworker : workerId < call.worldSize) (hwaiting : s.workers workerId = .waiting)
    (registered copyRaises : Bool) :
    (s.cbRetrievePreComputed workerId registered (call.ownKeys foundRanges workerId)
      copyRaises).Inv call := by
  have hstage : s.Reported call foundRanges := by
    have := h.stage
    rwa [hphase] at this
  have hset : ∀ phase : WorkerPhase (ObjectKey B), phase ≠ .returned →
      (∀ keys succeeded, phase = .launched keys succeeded →
        keys = (call.ownKeys foundRanges workerId).flatten) →
      (s.setWorker workerId phase).Inv call := by
    intro phase hne hkeys
    refine ⟨h.backed, h.sound, ?_⟩
    change Stage call _ s.phase
    rw [hphase]
    exact hstage.setWorker hworker hwaiting hne hkeys
  rw [cbRetrievePreComputed, h.firstBad_ownKeys hphase hworker hwaiting]
  cases registered with
  | false => exact hset .raised (by simp) (by simp)
  | true => exact hset (.launched _ _) (by simp) fun keys succeeded heq => by cases heq; rfl

theorem Inv.callback (h : s.Inv call) (hlaunched : s.workers workerId = .launched keys succeeded) :
    (∀ k, keys.count k ≤ s.mine k) ∧
      ((s.l1Call (.finishRead keys 0)).setWorker workerId .returned).Inv call := by
  have hstage := h.stage
  cases hphase : s.phase with
  | submitting skipped =>
    rw [hphase] at hstage
    have := hstage.waiting workerId
    simp [hlaunched] at this
  | reported foundRanges =>
    rw [hphase] at hstage
    have hown : ∀ k, keys.count k ≤ s.mine k := by
      intro k
      rw [hstage.launched workerId keys succeeded hlaunched]
      exact hstage.own_le_mine (hstage.called workerId (by simp [hlaunched]))
        (by simp [hlaunched]) k
    have hmine := mine_finishRead h.backed hown
    refine ⟨hown, fun k => (hmine k).2, h.sound, ?_⟩
    change Stage call _ s.phase
    rw [hphase]
    exact hstage.settle hlaunched fun k => (hmine k).1

omit [DecidableEq B] in
theorem phase_of_nextParagraph {range : ℕ × ℕ}
    (hnext : s.nextParagraph call = some range) : s.phase = .submitting [] := by
  rw [nextParagraph] at hnext
  split at hnext
  · assumption
  · cases hnext

omit [DecidableEq B] in
theorem calledWith_eq_some (hcalled : s.calledWith call workerId = some foundRanges) :
    s.phase = .reported foundRanges ∧ s.workers workerId = .waiting ∧
      workerId < call.worldSize := by
  rw [calledWith] at hcalled
  split at hcalled
  · rename_i ranges hphase hwaiting
    split_ifs at hcalled with hworker
    obtain rfl := Option.some.inj hcalled
    exact ⟨hphase, hwaiting, hworker⟩
  · cases hcalled

variable [DecidableEq I]

theorem inv_exec (s : BlendBalance (ObjectKey B)) (event : BlendEvent (ObjectKey B))
    (h : s.Inv call) (hundisturbed : s.Undisturbed call event) : (s.exec call event).Inv call := by
  cases event with
  | submit l2Resident =>
    rw [Undisturbed] at hundisturbed
    rw [exec] at hundisturbed ⊢
    cases hnext : s.nextParagraph call with
    | none => exact h
    | some range =>
      rw [hnext] at hundisturbed
      exact h.submit (phase_of_nextParagraph hnext) range l2Resident hundisturbed
  | releaseSkipped =>
    rw [exec]
    cases hphase : s.phase with
    | reported foundRanges => exact h
    | submitting skipped =>
      dsimp only
      split_ifs with hempty
      exacts [h, h.releaseSkipped hphase]
  | answer i l1 now =>
    rw [Undisturbed] at hundisturbed
    rw [exec] at hundisturbed ⊢
    cases hget : s.handles[i]? with
    | none => exact h
    | some hd =>
      rw [hget] at hundisturbed
      dsimp only at hundisturbed ⊢
      cases hopen : hd.answered with
      | true => exact h
      | false =>
        rw [hopen] at hundisturbed
        exact h.answer hget hopen l1 now hundisturbed
  | report =>
    rw [exec]
    split
    · split_ifs with hall
      · exact h.report (by assumption) (all_eq_true.mp hall.2)
      · exact h
    · exact h
  | retrieve workerId copyRaises =>
    rw [exec]
    cases hcalled : s.calledWith call workerId with
    | none => exact h
    | some foundRanges =>
      obtain ⟨hphase, hwaiting, hworker⟩ := calledWith_eq_some hcalled
      exact h.retrieve hphase hworker hwaiting _ _
  | finishReadPrefetched workerId =>
    rw [exec]
    split
    · exact (h.callback (by assumption)).2
    · exact h
  | others l1 now =>
    refine ⟨hundisturbed, h.sound, ?_⟩
    have hstage := h.stage
    change Stage call _ s.phase
    cases hphase : s.phase with
    | submitting skipped =>
      rw [hphase] at hstage
      exact ⟨hstage.counts, hstage.waiting⟩
    | reported foundRanges =>
      rw [hphase] at hstage
      exact ⟨hstage.ranges, hstage.answered, hstage.counts, hstage.called, hstage.launched⟩

theorem Inv.releasesOwn (h : s.Inv call) (event : BlendEvent (ObjectKey B)) :
    s.ReleasesOwn call event := by
  have hown : ∀ k, (s.givesBack call event).count k ≤ s.mine k := by
    intro k
    cases event with
    | releaseSkipped =>
      rw [givesBack]
      cases hphase : s.phase with
      | reported foundRanges => simp
      | submitting skipped =>
        have hstage := h.stage
        rw [hphase] at hstage
        exact count_le_mine_skipped hstage k
    | retrieve workerId copyRaises =>
      rw [givesBack]
      cases hcalled : s.calledWith call workerId with
      | none => simp
      | some foundRanges =>
        obtain ⟨hphase, hwaiting, hworker⟩ := calledWith_eq_some hcalled
        dsimp only
        rw [h.firstBad_ownKeys hphase hworker hwaiting]
        simp
    | finishReadPrefetched workerId =>
      rw [givesBack]
      split
      · exact (h.callback (by assumption)).1 k
      · simp
    | _ => simp [givesBack]
  exact fun k => returned_le (h.backed k) (hown k)

def AllWhole (call : BlendCall H B I) (s : BlendBalance (ObjectKey B)) : Prop :=
  (∀ h ∈ s.handles, call.worldSize ∣ h.found) ∧
    ∀ foundRanges, s.phase = .reported foundRanges →
      ∀ workerId, s.workers workerId = .raised → foundRanges = []

def Quiet (s : BlendBalance (ObjectKey B)) : Prop :=
  ∀ skipped, s.phase = .submitting skipped → ∀ workerId, s.workers workerId = .waiting

theorem quiet_exec (s : BlendBalance (ObjectKey B)) (event : BlendEvent (ObjectKey B))
    (h : s.Quiet) : (s.exec call event).Quiet := by
  cases event with
  | submit l2Resident =>
    rw [exec]
    cases hnext : s.nextParagraph call with
    | none => exact h
    | some range => exact fun _ _ => h [] (phase_of_nextParagraph hnext)
  | releaseSkipped =>
    rw [exec]
    cases hphase : s.phase with
    | reported foundRanges => exact h
    | submitting skipped =>
      dsimp only
      split_ifs with hempty
      exacts [h, fun _ _ => h skipped hphase]
  | answer i l1 now =>
    rw [exec]
    cases hget : s.handles[i]? with
    | none => exact h
    | some hd =>
      dsimp only
      split_ifs
      exacts [h, h]
  | report =>
    rw [exec]
    split
    · split_ifs
      · exact fun _ hphase => by cases hphase
      · exact h
    · exact h
  | retrieve workerId copyRaises =>
    rw [exec]
    cases hcalled : s.calledWith call workerId with
    | none => exact h
    | some foundRanges =>
      intro skipped hphase
      have hsame : (s.cbRetrievePreComputed workerId (call.registered workerId)
          (call.ownKeys foundRanges workerId) copyRaises).phase = s.phase := by
        rw [cbRetrievePreComputed]
        split_ifs
        · rfl
        · cases s.firstBad (call.ownKeys foundRanges workerId) <;> rfl
      rw [(calledWith_eq_some hcalled).1] at hsame
      cases hsame.symm.trans hphase
  | finishReadPrefetched workerId =>
    rw [exec]
    split
    · intro skipped hphase
      have hwaiting := h skipped hphase workerId
      simp_all
    · exact h
  | others l1 now => exact h

theorem found_submit (s : BlendBalance (ObjectKey B)) (range : ℕ × ℕ) (keys : List (ObjectKey B))
    (l2Resident : Option (ObjectKey B → Bool)) :
    ∃ hd : BlendHandle, (s.submitPrefetchTask range keys l2Resident).handles = s.handles ++ [hd] ∧
      hd.found = s.resident keys l2Resident := by
  refine ⟨_, rfl, ?_⟩
  rw [BlendHandle.found, hitCount_reserveRead]
  rfl

omit [DecidableEq I] [DecidableEq B] in
theorem allWhole_setWorker (call : BlendCall H B I) (workerId : ℕ) (phase : WorkerPhase (ObjectKey B))
    (hphase : s.phase = .reported foundRanges) (hwaiting : s.workers workerId ≠ .raised) :
    (s.setWorker workerId phase).AllWhole call ↔
      s.AllWhole call ∧ (phase = .raised → foundRanges = []) := by
  have hworkers : (∀ w, (s.setWorker workerId phase).workers w = .raised → foundRanges = []) ↔
      (∀ w, s.workers w = .raised → foundRanges = []) ∧ (phase = .raised → foundRanges = []) := by
    constructor
    · intro hall
      refine ⟨fun w hw => ?_, fun hraised => ?_⟩
      · have hne : w ≠ workerId := fun heq => hwaiting (heq ▸ hw)
        exact hall w (by simpa [setWorker, hne] using hw)
      · exact hall workerId (by simpa [setWorker] using hraised)
    · rintro ⟨hold, hnew⟩ w hw
      by_cases heq : w = workerId
      · exact hnew (by simpa [setWorker, heq] using hw)
      · exact hold w (by simpa [setWorker, heq] using hw)
  have hsame : (s.setWorker workerId phase).phase = .reported foundRanges := hphase
  simp only [AllWhole, hsame, hphase, LookupPhase.reported.injEq, forall_eq']
  rw [hworkers, and_assoc]
  rfl

omit [DecidableEq I] in
theorem allWhole_l1Call (op : L1Step (ObjectKey B)) :
    (s.l1Call op).AllWhole call ↔ s.AllWhole call := Iff.rfl

theorem allWhole_exec (s : BlendBalance (ObjectKey B)) (event : BlendEvent (ObjectKey B))
    (hquiet : s.Quiet) :
    (s.exec call event).AllWhole call ↔ s.AllWhole call ∧ s.Whole call event := by
  cases event with
  | submit l2Resident =>
    rw [exec, Whole]
    cases hnext : s.nextParagraph call with
    | none => simp
    | some range =>
      have hphase := phase_of_nextParagraph hnext
      obtain ⟨hd, hhandles, hfound⟩ :=
        found_submit s range (call.objectKeys call.key range) l2Resident
      have hafter : (s.submitPrefetchTask range (call.objectKeys call.key range)
          l2Resident).phase = .submitting (skippedKeys (s.l1.reserveRead s.now
            (call.objectKeys call.key range) 0).1 (call.objectKeys call.key range)) := rfl
      simp only [AllWhole, hhandles, forall_mem_append, forall_mem_singleton, hfound,
        hphase, hafter, Option.some.injEq, forall_eq', reduceCtorEq, false_imp_iff, implies_true,
        and_true]
  | releaseSkipped =>
    rw [exec]
    refine Iff.trans ?_ (and_iff_left trivial).symm
    cases hphase : s.phase with
    | reported foundRanges => exact Iff.rfl
    | submitting skipped =>
      dsimp only
      split_ifs with hempty
      · exact Iff.rfl
      · simp [AllWhole, hphase, l1Call]
  | answer i l1 now =>
    rw [exec]
    refine Iff.trans ?_ (and_iff_left trivial).symm
    cases hget : s.handles[i]? with
    | none => exact Iff.rfl
    | some hd =>
      dsimp only
      split_ifs with hopen
      · exact Iff.rfl
      · obtain ⟨hi, hat⟩ := List.getElem?_eq_some_iff.mp hget
        obtain ⟨pre, post, hhandles, _, hset⟩ :=
          @exists_of_set _ i { hd with answered := true } s.handles hi
        rw [hat] at hhandles
        refine and_congr_left fun _ => ?_
        rw [hset, hhandles]
        simp only [forall_mem_append, forall_mem_cons]
        exact Iff.rfl
  | report =>
    rw [exec]
    refine Iff.trans ?_ (and_iff_left trivial).symm
    split
    · rename_i hphase
      split_ifs
      · have hwaiting := hquiet [] hphase
        simp [AllWhole, hphase, hwaiting]
      · exact Iff.rfl
    · exact Iff.rfl
  | retrieve workerId copyRaises =>
    rw [exec, Whole]
    cases hcalled : s.calledWith call workerId with
    | none => simp
    | some foundRanges =>
      obtain ⟨hphase, hwaiting, hworker⟩ := calledWith_eq_some hcalled
      have hset := fun phase => allWhole_setWorker call workerId phase hphase (by simp [hwaiting])
      simp only [Option.some.injEq, forall_eq', cbRetrievePreComputed]
      cases call.registered workerId with
      | false => simpa using hset .raised
      | true =>
        cases s.firstBad (call.ownKeys foundRanges workerId) with
        | none => simpa using hset (.launched _ !copyRaises)
        | some good =>
          have hgood := allWhole_setWorker (s := s.l1Call (.finishRead good 0)) call workerId
            (.launched (call.ownKeys foundRanges workerId).flatten false) hphase
            (by simp [l1Call, hwaiting])
          simpa [allWhole_l1Call] using hgood
  | finishReadPrefetched workerId =>
    rw [exec]
    refine Iff.trans ?_ (and_iff_left trivial).symm
    split
    · rename_i keys succeeded hlaunched
      cases hphase : s.phase with
      | submitting skipped => simp [hquiet skipped hphase workerId] at hlaunched
      | reported foundRanges =>
        have hset := allWhole_setWorker (s := s.l1Call (.finishRead keys 0)) call workerId
          .returned hphase (by simp [l1Call, hlaunched])
        simpa [allWhole_l1Call] using hset
    · exact Iff.rfl
  | others l1 now => exact (and_iff_left trivial).symm

omit [DecidableEq I] in
theorem mine_eq_zero_iff (h : s.Inv call) (hdone : s.Completed call) :
    (∀ k, s.mine k = 0) ↔ s.AllWhole call := by
  obtain ⟨⟨foundRanges, hphase⟩, hworkers⟩ := hdone
  have hstage : s.Reported call foundRanges := by
    have := h.stage
    rwa [hphase] at this
  have hempty : ∀ keys : List (ObjectKey B), (∀ k, keys.count k = 0) ↔ keys = [] := fun keys => by
    simp [count_eq_zero, eq_nil_iff_forall_not_mem]
  have hleftover : (s.handles.flatMap call.leftover = []) ↔
      ∀ hd ∈ s.handles, call.worldSize ∣ hd.found := by
    rw [flatMap_eq_nil_iff]
    exact forall₂_congr fun hd hhd => (h.sound hd hhd).leftover_eq_nil_iff
  have howed : (∀ w ∈ Finset.range call.worldSize, s.owed call foundRanges w = []) ↔
      ∀ w, s.workers w = .raised → foundRanges = [] := by
    have hown : ∀ w, (call.ownKeys foundRanges w).flatten = [] ↔ foundRanges = [] := fun w => by
      rw [hstage.ranges]
      exact ownKeys_eq_nil_iff h.sound w
    constructor
    · intro hall w hw
      have hworker := hstage.called w (by simp [hw])
      have hnil := hall w (Finset.mem_range.mpr hworker)
      rwa [owed, if_neg (by simp [hw]), hown] at hnil
    · intro hall w hw
      rw [owed]
      rcases hworkers w (Finset.mem_range.mp hw) with hret | hraised
      · rw [if_pos hret]
      · rw [if_neg (by simp [hraised]), hown]
        exact hall w hraised
  have hsplit : (∀ k, s.mine k = 0) ↔ (∀ k, (s.handles.flatMap call.leftover).count k = 0) ∧
      ∀ w ∈ Finset.range call.worldSize, ∀ k, (s.owed call foundRanges w).count k = 0 := by
    simp only [hstage.counts, Nat.add_eq_zero_iff, forall_and, Finset.sum_eq_zero_iff]
    exact and_congr_right fun _ => ⟨fun hall w hw k => hall k w hw, fun hall k w hw => hall w hw k⟩
  rw [hsplit, hempty, hleftover, AllWhole]
  simp only [hempty, howed, hphase, LookupPhase.reported.injEq, forall_eq']

open Execution

theorem balanced_iff_whole (call : BlendCall H B I) (l1 : L1Manager (ObjectKey B)) (now : ℕ)
    (events : List (BlendEvent (ObjectKey B)))
    (hundisturbed : Along (exec call) (Undisturbed call) (start l1 now) events)
    (hdone : Completed call (final (exec call) (start l1 now) events)) :
    (Along (exec call) (ReleasesOwn call) (start l1 now) events ∧
        ∀ k, (final (exec call) (start l1 now) events).mine k = 0) ↔
      Along (exec call) (Whole call) (start l1 now) events := by
  have hfinal : (final (exec call) (start l1 now) events).Inv call :=
    invariant_final inv_exec (inv_start call l1 now) hundisturbed
  have hown : Along (exec call) (ReleasesOwn call) (start l1 now) events :=
    along_of_invariant inv_exec (fun _ event h _ => h.releasesOwn event) (inv_start call l1 now)
      hundisturbed
  have hstart : (start l1 now).AllWhole call :=
    ⟨fun _ hh => absurd hh not_mem_nil, fun _ hphase => by cases hphase⟩
  rw [and_iff_right hown, mine_eq_zero_iff hfinal hdone,
    final_iff_along (I := Quiet) (fun s event h => quiet_exec s event h)
      (fun s event h => allWhole_exec s event h) (fun _ _ _ => rfl), and_iff_right hstart]

def twoWorkers : BlendCall ℕ ℕ ℕ where
  hasher := ⟨2, fun hash tokens => hash + tokens.sum, 0, id, by decide⟩
  blendHashPrefix := 7
  env := fullEnv
  key := { lookupKey 2 (by decide) with tokenIds := [1, 2, 3] }
  isLookup := rfl
  matched := [(0, 3)]
  cbGpuContextMeta := [(0, "model", 2), (1, "model", 2)]
  instanceId := id

def storedFor (workerIds : List ℕ) : L1Manager (ObjectKey ℕ) :=
  let keys := workerIds.map fun workerId => twoWorkers.workerKey workerId 10
  ((L1Manager.init 60 60).step 0 (.reserveWrite true keys (keys.map fun _ => false) .new)).step 0
    (.finishWrite keys)

def wholeCalls : List (BlendEvent (ObjectKey ℕ)) :=
  [.submit none, .report, .retrieve 0 false, .retrieve 1 true, .finishReadPrefetched 1,
    .finishReadPrefetched 0]

theorem undisturbed_submit {l2Resident : Option (ObjectKey B → Bool)}
    (h : ∀ item ∈ (s.exec call (.submit l2Resident)).l1.objects.items, item.2.Live s.now) :
    s.Undisturbed call (.submit l2Resident) :=
  fun _ _ _ he => h _ ((Dict.get?_eq_some_iff _ _ _).mp he)

theorem balanced_iff_whole_stored :
    (Along (exec twoWorkers) (ReleasesOwn twoWorkers) (start (storedFor [0, 1]) 1) wholeCalls ∧
        ∀ k, (final (exec twoWorkers) (start (storedFor [0, 1]) 1) wholeCalls).mine k = 0) ↔
      Along (exec twoWorkers) (Whole twoWorkers) (start (storedFor [0, 1]) 1) wholeCalls :=
  balanced_iff_whole twoWorkers (storedFor [0, 1]) 1 wholeCalls
    ⟨undisturbed_submit (by decide +kernel), trivial, trivial, trivial, trivial, trivial, trivial⟩
    ⟨⟨[(0, 2)], by decide +kernel⟩, by decide +kernel⟩

theorem not_balanced_halfChunk :
    ¬ ∀ (call : BlendCall ℕ ℕ ℕ) (l1 : L1Manager (ObjectKey ℕ)) (now : ℕ)
        (events : List (BlendEvent (ObjectKey ℕ))),
      Along (exec call) (Undisturbed call) (start l1 now) events →
      Completed call (final (exec call) (start l1 now) events) →
        Along (exec call) (ReleasesOwn call) (start l1 now) events ∧
          ∀ k, (final (exec call) (start l1 now) events).mine k = 0 := by
  intro h
  have hlast := (h twoWorkers (storedFor [0]) 1 wholeCalls
    ⟨undisturbed_submit (by decide +kernel), trivial, trivial, trivial, trivial, trivial, trivial⟩
    ⟨⟨[], by decide +kernel⟩, by decide +kernel⟩).2 (twoWorkers.workerKey 0 10)
  revert hlast
  decide +kernel

end BlendBalance

end LMCache
