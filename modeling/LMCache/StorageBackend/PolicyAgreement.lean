import LMCache.StorageBackend.DiskPolicy
import LMCache.StorageBackend.HotPolicy

namespace LMCache

open Execution LocalDiskConfig DiskState CPUState

variable {K Λ X E : Type} [DecidableEq K]

namespace DiskRequests

open CachePolicy

variable {cfg : LocalDiskConfig K Λ} {st : DiskRequests K Λ X E} {key : K}

def calls (cfg : LocalDiskConfig K Λ) (st : DiskRequests K Λ X E) :
    DiskRequest K Λ X E → List (PolicyCall K (DiskCacheMetadata Λ X))
  | .step event => DiskState.calls cfg st.disk event
  | .touchCache =>
      if st.disk.locked then []
      else touchCalls st.keysInRequest.reverse st.disk.policy st.disk.dict
  | _ => []

def PolicyClear (cfg : LocalDiskConfig K Λ) (st : DiskRequests K Λ X E) :
    DiskRequest K Λ X E → Prop
  | .step event => DiskState.PolicyClear cfg st.disk event
  | .touchCache => st.disk.locked = false →
      ∀ key ∈ st.keysInRequest, st.disk.policy.Knows st.disk.dict key
  | _ => True

theorem called_contains (h : st.disk.Settled) (key : K) (pin : Bool) :
    st.disk.Called (st.contains key pin).disk [] := by
  rw [contains]
  split_ifs
  · exact called_setPins h key
  · exact called_same h rfl (fun _ => rfl) rfl rfl

theorem called_batchedAsyncContains (pin : Bool) (keys : List K) (st : DiskRequests K Λ X E)
    (h : st.disk.Settled) : st.disk.Called (st.batchedAsyncContains pin keys).disk [] := by
  induction keys generalizing st with
  | nil => exact called_same h rfl (fun _ => rfl) rfl rfl
  | cons key keys ih =>
    rw [batchedAsyncContains]
    split_ifs
    · have hfirst := called_contains h key pin
      have hrest := ih _ hfirst.settled
      exact ⟨hfirst.follows.append hrest.follows, hrest.kind.trans hfirst.kind, hrest.settled⟩
    · exact called_same h rfl (fun _ => rfl) rfl rfl

theorem called_touchKeys (keys : List K) (st : DiskRequests K Λ X E) (h : st.disk.Settled)
    (hknows : ∀ key ∈ keys, st.disk.policy.Knows st.disk.dict key) :
    st.disk.Called (touchKeys keys st).disk (touchCalls keys st.disk.policy st.disk.dict) := by
  induction keys generalizing st with
  | nil => exact called_same h rfl (fun _ => rfl) rfl rfl
  | cons key keys ih =>
    obtain ⟨policy, dict, hhit⟩ := exists_updateOnHit (hknows key List.mem_cons_self) h.exact
    have hfirst := called_hit h hhit
    have hrest := ih { st with disk := { st.disk with policy := policy, dict := dict } }
      hfirst.settled fun key' hkey' =>
        (hknows key' (List.mem_cons_of_mem _ hkey')).updateOnHit hhit
    rw [touchKeys, touchCalls, hhit]
    exact ⟨hfirst.follows.append hrest.follows, hrest.kind.trans hfirst.kind, hrest.settled⟩

theorem called_handle (h : st.disk.Settled) (request : DiskRequest K Λ X E)
    (hclear : PolicyClear cfg st request) :
    st.disk.Called (cfg.handle st request).disk (calls cfg st request) := by
  cases request with
  | step event => exact DiskState.called_exec h event hclear
  | contains key pin =>
    rw [handle]
    split_ifs
    · exact DiskState.called_same h rfl (fun _ => rfl) rfl rfl
    · exact called_contains h key pin
  | batchedAsyncContains keys pin =>
    rw [handle]
    split_ifs
    · exact DiskState.called_same h rfl (fun _ => rfl) rfl rfl
    · exact called_batchedAsyncContains pin keys st h
  | touchCache =>
    rw [handle, calls]
    split_ifs with hlocked
    · exact DiskState.called_same h rfl (fun _ => rfl) rfl rfl
    · exact called_touchKeys _ st h fun key hkey =>
        hclear (by simpa using hlocked) key (List.mem_reverse.mp hkey)

end DiskRequests

namespace LFUCachePolicy

structure Bucketed (lfu : LFUCachePolicy K) : Prop where
  nonempty : ∀ bucket ∈ lfu.freqToKeys, bucket.2 ≠ []
  distinct : (lfu.freqToKeys.map Prod.fst).Nodup
  mem_iff : ∀ key freq, (∃ keys, (freq, keys) ∈ lfu.freqToKeys ∧ key ∈ keys) ↔
    lfu.keyToFreq.get? key = some freq

theorem bucketed_of_exact {lfu : LFUCachePolicy K} (hwell : lfu.WellFormed)
    (hexact : lfu.flat.Exact) : lfu.Bucketed where
  nonempty := hwell.buckets.nonempty
  distinct := List.pairwise_map.mpr (hwell.buckets.sorted.imp fun hlt => Nat.ne_of_lt hlt)
  mem_iff key freq := by
    rw [← Buckets.mem_entries]
    exact hexact.mem_iff freq key

end LFUCachePolicy

section Runs

open CachePolicy

variable {kind : PolicyKind} {cfg : LocalDiskConfig K Λ}

def hotCalls (kind : PolicyKind) (events : List CPUEvent) : List (PolicyCall HotKey ℕ) :=
  runCalls exec calls (.start kind) events

def diskCalls (cfg : LocalDiskConfig K Λ) (kind : PolicyKind)
    (requests : List (DiskRequest K Λ X E)) : List (PolicyCall K (DiskCacheMetadata Λ X)) :=
  runCalls cfg.handle (DiskRequests.calls cfg) (.start kind) requests

variable {events : List CPUEvent}

theorem settled_hot (hclear : Along exec CPUState.PolicyClear (.start kind) events) :
    (final exec (.start kind) events).Settled ∧
      (final exec (.start kind) events).policy.kind = kind := by
  refine invariant_final (I := fun st : CPUState => st.Settled ∧ st.policy.kind = kind)
    (fun st event h hevent => ?_) ⟨fun _ => keeps_init kind _, rfl⟩ hclear
  have hcalled := called_exec h.1 event hevent
  exact ⟨hcalled.settled, hcalled.kind.trans h.2⟩

theorem follows_hot (hclear : Along exec CPUState.PolicyClear (.start kind) events) :
    Follows after (init kind) (hotCalls kind events) (final exec (.start kind) events).policy := by
  refine follows_run (p := CPUState.policy) (I := CPUState.Settled) (fun st event h hevent => ?_)
    (fun _ => keeps_init kind _) hclear
  have hcalled := called_exec h event hevent
  exact ⟨hcalled.follows, hcalled.settled⟩

theorem settled_start (kind : PolicyKind) : (start kind : DiskState K Λ X E).Settled where
  registered := ⟨List.nodup_nil, fun _ h => absurd h List.not_mem_nil⟩
  keeps _ := keeps_init kind _

variable {requests : List (DiskRequest K Λ X E)}

theorem settled_disk
    (hclear : Along cfg.handle (DiskRequests.PolicyClear cfg) (.start kind) requests) :
    (final cfg.handle (.start kind) requests).disk.Settled ∧
      (final cfg.handle (.start kind) requests).disk.policy.kind = kind := by
  refine invariant_final
    (I := fun st : DiskRequests K Λ X E => st.disk.Settled ∧ st.disk.policy.kind = kind)
    (fun st request h hrequest => ?_) ⟨settled_start kind, rfl⟩ hclear
  have hcalled := DiskRequests.called_handle h.1 request hrequest
  exact ⟨hcalled.settled, hcalled.kind.trans h.2⟩

theorem follows_disk
    (hclear : Along cfg.handle (DiskRequests.PolicyClear cfg) (.start kind) requests) :
    Follows after (init kind) (diskCalls cfg kind requests)
      (final cfg.handle (.start kind) requests).disk.policy := by
  refine follows_run (p := fun st : DiskRequests K Λ X E => st.disk.policy)
    (I := fun st : DiskRequests K Λ X E => st.disk.Settled)
    (fun st request h hrequest => ?_) (settled_start kind) hclear
  have hcalled := DiskRequests.called_handle h request hrequest
  exact ⟨hcalled.follows, hcalled.settled⟩

theorem buckets_of_follows {V : Type} {calls : List (PolicyCall K V)} {policy : CachePolicy K}
    (h : Follows after (init .lfu) calls policy) (hexact : policy.Exact) :
    ∃ lfu, Follows LFUCachePolicy.after LFUCachePolicy.init calls lfu ∧ lfu.Bucketed ∧
      lfu.keyToFreq = policy.keyToFreq := by
  obtain ⟨lfu, hfollows, hwell, hflat⟩ :=
    LFUCachePolicy.follows_buckets h LFUCachePolicy.wellFormed_init rfl
  exact ⟨lfu, hfollows, LFUCachePolicy.bucketed_of_exact hwell (hflat ▸ hexact),
    congrArg CachePolicy.keyToFreq hflat⟩

theorem policy_agrees_with_index (kind : PolicyKind) :
    (∀ events, Along exec CPUState.PolicyClear (.start kind) events →
      Follows after (init kind) (hotCalls kind events) (final exec (.start kind) events).policy ∧
      (kind = .lfu →
        ∃ lfu, Follows LFUCachePolicy.after LFUCachePolicy.init (hotCalls kind events) lfu ∧
          lfu.Bucketed ∧ ∀ key, lfu.keyToFreq.contains key =
            (final exec (.start kind) events).hotCache.contains key)) ∧
    ∀ (cfg : LocalDiskConfig K Λ) (requests : List (DiskRequest K Λ X E)),
      Along cfg.handle (DiskRequests.PolicyClear cfg) (.start kind) requests →
      Follows after (init kind) (diskCalls cfg kind requests)
        (final cfg.handle (.start kind) requests).disk.policy ∧
      (kind = .lfu →
        ∃ lfu, Follows LFUCachePolicy.after LFUCachePolicy.init (diskCalls cfg kind requests) lfu ∧
          lfu.Bucketed ∧
          (∀ key, (final cfg.handle (.start kind) requests).disk.dict.contains key = true →
            lfu.keyToFreq.contains key = true) ∧
          (∀ key, lfu.keyToFreq.contains key = true →
            (final cfg.handle (.start kind) requests).disk.dict.contains key = true ∨
              (final cfg.handle (.start kind) requests).disk.InFlight key) ∧
          ((∀ key, ¬ (final cfg.handle (.start kind) requests).disk.InFlight key) →
            ∀ key, lfu.keyToFreq.contains key =
              (final cfg.handle (.start kind) requests).disk.dict.contains key)) := by
  refine ⟨fun events hclear => ?_, fun cfg requests hclear => ?_⟩
  · have hfollows := follows_hot hclear
    obtain ⟨hsettled, hkind⟩ := settled_hot hclear
    refine ⟨hfollows, ?_⟩
    rintro rfl
    have hkeeps := hsettled hkind
    obtain ⟨lfu, hbuckets, hbucketed, hfreq⟩ := buckets_of_follows hfollows hkeeps.exact
    refine ⟨lfu, hbuckets, hbucketed, fun key => ?_⟩
    rw [hfreq, Bool.eq_iff_iff]
    exact ⟨fun hkey => (hkeeps.known key hkey).resolve_right fun hfalse => hfalse,
      hkeeps.tracked key⟩
  · have hfollows := follows_disk hclear
    obtain ⟨hsettled, hkind⟩ := settled_disk hclear
    refine ⟨hfollows, ?_⟩
    rintro rfl
    have hkeeps := hsettled.keeps hkind
    obtain ⟨lfu, hbuckets, hbucketed, hfreq⟩ := buckets_of_follows hfollows hkeeps.exact
    refine ⟨lfu, hbuckets, hbucketed, ?_⟩
    rw [hfreq]
    refine ⟨hkeeps.tracked, hkeeps.known, fun hquiet key => ?_⟩
    rw [Bool.eq_iff_iff]
    exact ⟨fun hkey => (hkeeps.known key hkey).resolve_right (hquiet key), hkeeps.tracked key⟩

end Runs

section Examples

open CachePolicy

def hotChunk : HotKey := .chunk ⟨['m'], 1, 0, 5, ['h', 'a', 'l', 'f'], []⟩

def touchedChunk : List CPUEvent :=
  [.allocate, .submitPutTask hotChunk 0, .refCountDown 0, .contains hotChunk true, .touchCache,
    .unpin hotChunk, .evictOne]

def touchedFile : List (DiskRequest (List Char) Unit Unit Unit) :=
  (storeKey ['a']).map .step ++
    [.batchedAsyncContains [['a'], ['b']] true, .touchCache, .step (.unpin ['a']),
      .step (.submitPutTask ['b'] smallObj 8192), .step (.writeFile ['b']), .step (.insertKey ['b'])]

theorem policy_agrees_with_index_touched :
    (∃ lfu, Follows LFUCachePolicy.after LFUCachePolicy.init (hotCalls .lfu touchedChunk) lfu ∧
      lfu.Bucketed) ∧
    ∃ lfu, Follows LFUCachePolicy.after LFUCachePolicy.init
      (diskCalls smallDisk .lfu touchedFile) lfu ∧ lfu.Bucketed ∧ ∀ key, lfu.keyToFreq.contains key =
        (final smallDisk.handle (.start .lfu) touchedFile).disk.dict.contains key := by
  constructor
  · obtain ⟨_, hlfu⟩ := (policy_agrees_with_index (K := List Char) (Λ := Unit) (X := Unit)
      (E := Unit) .lfu).1 touchedChunk
        ⟨trivial, trivial, trivial, trivial, fun _ => by decide, trivial, trivial, trivial⟩
    obtain ⟨lfu, hfollows, hbucketed, _⟩ := hlfu rfl
    exact ⟨lfu, hfollows, hbucketed⟩
  · obtain ⟨_, hlfu⟩ := (policy_agrees_with_index .lfu).2 smallDisk touchedFile
      ⟨fun _ _ => ⟨fun _ hturn => absurd hturn List.not_mem_nil, fun _ hroom _ _ hget => by
          obtain ⟨_, rfl⟩ := Prod.mk.inj hroom
          cases hget⟩,
        trivial, fun _ _ _ _ _ => by decide, trivial, trivial, fun _ => by decide, trivial,
        fun _ _ => ⟨by decide, fun _ hroom _ _ hget => by
          obtain ⟨_, rfl⟩ := Prod.mk.inj hroom
          cases hget⟩, trivial, fun _ _ _ _ _ => by decide, trivial⟩
    obtain ⟨lfu, hfollows, hbucketed, -, -, hsame⟩ := hlfu rfl
    exact ⟨lfu, hfollows, hbucketed, hsame fun key ⟨_, htask, _⟩ => List.not_mem_nil htask⟩

def twoFiles : List (DiskRequest (List Char) Unit Unit Unit) :=
  [.step (.submitPutTask ['a'] smallObj 8192), .step (.submitPutTask ['b'] smallObj 8192)]

def sameFile : List (DiskRequest (List Char) Unit Unit Unit) :=
  (storeKey ['a']).map .step ++ [.step (.getBlocking 0 ['a'] none),
    .step (.submitPutTask ['a'] smallObj 4096)]

def removedChunk : List CPUEvent :=
  [.allocate, .submitPutTask hotChunk 0, .contains hotChunk true, .remove hotChunk, .touchCache]

theorem not_policy_agrees_with_index :
    (¬ ∃ policy, Follows after (init .lfu) (diskCalls smallDisk .lfu twoFiles) policy) ∧
    (∀ freq ∈ [1, 2], (freq, ['a']) ∈
      (final smallDisk.handle (.start .lfu) sameFile).disk.policy.freqToKeys) ∧
    ¬ ∃ policy, Follows after (init .lru) (hotCalls .lru removedChunk) policy := by
  refine ⟨?_, by decide, ?_⟩
  · rintro ⟨policy, hfollows⟩
    cases hfollows.foldlM_eq
  · rintro ⟨policy, hfollows⟩
    cases hfollows.foldlM_eq

end Examples

end LMCache
