import LMCache.StorageBackend.DiskReadSteps
import LMCache.StorageBackend.PolicyCalls

namespace LMCache

open DiskCacheMetadata

variable {K Λ X E : Type} [DecidableEq K]

structure DiskRequests (K Λ X E : Type) where
  disk : DiskState K Λ X E
  keysInRequest : List K

variable (cfg : LocalDiskConfig K Λ)

inductive DiskRequest (K Λ X E : Type) where
  | step (event : DiskEvent K Λ X E)
  | contains (key : K) (pin : Bool)
  | batchedAsyncContains (keys : List K) (pin : Bool)
  | touchCache

namespace DiskRequests

def start (kind : PolicyKind) : DiskRequests K Λ X E := ⟨.start kind, []⟩

def contains (st : DiskRequests K Λ X E) (key : K) (pin : Bool) : DiskRequests K Λ X E :=
  if st.disk.dict.contains key && pin then
    ⟨st.disk.setPins key DiskCacheMetadata.pin, st.keysInRequest ++ [key]⟩
  else st

def batchedAsyncContains (pin : Bool) : List K → DiskRequests K Λ X E → DiskRequests K Λ X E
  | [], st => st
  | key :: keys, st =>
      if st.disk.dict.contains key then batchedAsyncContains pin keys (st.contains key pin) else st

def touchKeys : List K → DiskRequests K Λ X E → DiskRequests K Λ X E
  | [], st => { st with keysInRequest := [] }
  | key :: keys, st =>
      match st.disk.policy.updateOnHit key st.disk.dict with
      | none => st
      | some (policy, dict) =>
          touchKeys keys { st with disk := { st.disk with policy := policy, dict := dict } }

def touchCache (st : DiskRequests K Λ X E) : DiskRequests K Λ X E :=
  touchKeys st.keysInRequest.reverse st

end DiskRequests

namespace LocalDiskConfig

def handle (st : DiskRequests K Λ X E) :
    DiskRequest K Λ X E → DiskRequests K Λ X E
  | .step event => { st with disk := cfg.exec st.disk event }
  | .contains key pin => if st.disk.locked then st else st.contains key pin
  | .batchedAsyncContains keys pin =>
      if st.disk.locked then st else st.batchedAsyncContains pin keys
  | .touchCache => if st.disk.locked then st else st.touchCache

end LocalDiskConfig

namespace DiskState

open CachePolicy

def roomTurns (maxCacheSize requiredSize : ℕ) : ℕ → DiskState K Λ X E → List (DiskState K Λ X E)
  | fuel, st =>
      if st.currentCacheSize + requiredSize ≤ maxCacheSize then []
      else
        st ::
          match st.policy.getEvictCandidates canEvict st.dict with
          | some (some evictKey, policy) =>
              match fuel, st.dict.get? evictKey with
              | fuel + 1, some diskMeta =>
                  let st' := { st with
                    policy := policy
                    currentCacheSize := st.currentCacheSize - diskMeta.size }
                  if (st'.evict evictKey diskMeta).2 then
                    roomTurns maxCacheSize requiredSize fuel (st'.evict evictKey diskMeta).1
                  else []
              | _, _ => []
          | _ => []

def askCandidate (st : DiskState K Λ X E) : PolicyCall K (DiskCacheMetadata Λ X) :=
  .getEvictCandidates canEvict st.dict

def putCalls (st : DiskState K Λ X E) (key : K) (size : ℕ) :
    List (PolicyCall K (DiskCacheMetadata Λ X)) :=
  if key ∈ st.putTasks then []
  else
    (roomTurns cfg.maxCacheSize size st.dict.items.length (st.insertPutTask key)).map askCandidate ++
      if (makeRoom cfg.maxCacheSize size st.dict.items.length (st.insertPutTask key)).1 = .room then
        [.updateOnPut key]
      else []

def hitCalls (st : DiskState K Λ X E) (key : K) : List (PolicyCall K (DiskCacheMetadata Λ X)) :=
  if st.dict.contains key then [.updateOnHit key st.dict] else []

def removeCalls (st : DiskState K Λ X E) (key : K) : List (PolicyCall K (DiskCacheMetadata Λ X)) :=
  match st.dict.get? key with
  | none => []
  | some diskMeta =>
      if (st.files diskMeta.path).isSome then [.updateOnForceEvict key] else []

def locateCalls (st : DiskState K Λ X E) (jobId : ℕ) (memory : Option (ℕ → ℕ)) :
    List (PolicyCall K (DiskCacheMetadata Λ X)) :=
  match st.jobs.get? jobId with
  | none => []
  | some job =>
      match job.toLocate, memory with
      | key :: _, some _ => (st.setPins key pin).hitCalls key
      | _, _ => []

def calls (st : DiskState K Λ X E) :
    DiskEvent K Λ X E → List (PolicyCall K (DiskCacheMetadata Λ X))
  | .submitPutTask key _ size => if st.locked then [] else st.putCalls cfg key size
  | .insertKey key =>
      if st.locked then []
      else match st.taskOf key .written with
        | none => []
        | some _ => st.hitCalls key
  | .remove key => if st.locked then [] else st.removeCalls key
  | .getBlocking jobId key _ => if st.locked || st.jobs.contains jobId then [] else st.hitCalls key
  | .locate jobId memory => if st.locked then [] else st.locateCalls jobId memory
  | _ => []

def InFlight (st : DiskState K Λ X E) (key : K) : Prop := ∃ task ∈ st.pendingTasks, task.key = key

def PolicyClear (st : DiskState K Λ X E) : DiskEvent K Λ X E → Prop
  | .submitPutTask key _ size =>
      st.locked = false → key ∉ st.putTasks →
        (∀ turn ∈ roomTurns cfg.maxCacheSize size st.dict.items.length (st.insertPutTask key),
          turn.policy.ScanClear canEvict turn.dict) ∧
        ∀ st', makeRoom cfg.maxCacheSize size st.dict.items.length (st.insertPutTask key) =
          (.room, st') → st'.policy.kind = .lfu → ∀ freq, st'.policy.keyToFreq.get? key = some freq → freq = 1
  | .insertKey key =>
      st.policy.kind = .lfu → st.locked = false → ∀ task, st.taskOf key .written = some task →
        st.dict.contains key = false → st.policy.keyToFreq.contains key = true
  | .remove key =>
      st.policy.kind = .lfu → st.locked = false → ∀ m, st.dict.get? key = some m →
        st.files m.path = none → st.InFlight key
  | .readFile jobId =>
      st.policy.kind = .lfu → ∀ job target toLoad,
        st.headTarget jobId .allocated = some (job, target, toLoad) →
          st.files target.diskMeta.path = none → st.dict.contains target.key = true →
            st.InFlight target.key
  | _ => True

structure Settled (st : DiskState K Λ X E) : Prop where
  registered : st.Registered
  keeps : st.policy.kind = .lfu → st.policy.Keeps st.dict st.InFlight

structure Called (st st' : DiskState K Λ X E)
    (calls : List (PolicyCall K (DiskCacheMetadata Λ X))) : Prop where
  follows : Follows after st.policy calls st'.policy
  kind : st'.policy.kind = st.policy.kind
  settled : st'.Settled

variable {st st' : DiskState K Λ X E} {key : K} {size : ℕ}

theorem Settled.exact (h : st.Settled) : st.policy.kind = .lfu → st.policy.Exact :=
  fun hlfu => (h.keeps hlfu).exact

omit [DecidableEq K] in
theorem inFlight_congr (htasks : st'.tasks = st.tasks) : st'.InFlight key ↔ st.InFlight key := by
  rw [InFlight, InFlight, pendingTasks, pendingTasks, htasks]

theorem Settled.mono (h : st.Settled) (hregistered : st'.Registered)
    (hpolicy : st'.policy = st.policy)
    (hsub : ∀ key, st'.dict.contains key = true → st.dict.contains key = true)
    (hstays : st.policy.kind = .lfu → ∀ key, st.dict.contains key = true ∨ st.InFlight key →
      st'.dict.contains key = true ∨ st'.InFlight key) : st'.Settled := by
  refine ⟨hregistered, ?_⟩
  rw [hpolicy]
  exact fun hlfu => (h.keeps hlfu).mono hsub (hstays hlfu)

theorem called_same (h : st.Settled) (hpolicy : st'.policy = st.policy)
    (hdict : ∀ key, st'.dict.contains key = st.dict.contains key)
    (htasks : st'.tasks = st.tasks) (hputTasks : st'.putTasks = st.putTasks) :
    Called st st' [] := by
  refine ⟨?_, by rw [hpolicy], h.mono (h.registered.congr htasks hputTasks) hpolicy
    (fun key hkey => (hdict key).symm.trans hkey)
    fun _ key => Or.imp (hdict key).trans (inFlight_congr htasks).mpr⟩
  rw [hpolicy]
  exact .nil _

theorem Called.congr {st'' : DiskState K Λ X E}
    {calls : List (PolicyCall K (DiskCacheMetadata Λ X))} (h : Called st st' calls)
    (hpolicy : st''.policy = st'.policy) (hdict : st''.dict = st'.dict)
    (htasks : st''.tasks = st'.tasks) (hputTasks : st''.putTasks = st'.putTasks) :
    Called st st'' calls where
  follows := hpolicy ▸ h.follows
  kind := by rw [hpolicy, h.kind]
  settled := h.settled.mono (h.settled.registered.congr htasks hputTasks) hpolicy
    (fun _ hkey => hdict ▸ hkey) fun _ _ => Or.imp (fun hkey => hdict ▸ hkey) (inFlight_congr htasks).mpr

theorem Settled.knows (h : st.Settled) (hstored : st.dict.contains key = true) :
    st.policy.Knows st.dict key := by
  rw [Knows]
  cases hkind : st.policy.kind with
  | lru | mru => exact hstored
  | fifo => trivial
  | lfu => exact (h.keeps hkind).tracked key hstored

theorem called_hit (h : st.Settled) {policy : CachePolicy K}
    {dict : Dict K (DiskCacheMetadata Λ X)}
    (hhit : st.policy.updateOnHit key st.dict = some (policy, dict)) :
    Called st { st with policy := policy, dict := dict } [.updateOnHit key st.dict] := by
  have hkind := (hit_of_updateOnHit hhit).kind
  exact ⟨follows_updateOnHit hhit, hkind, h.registered.congr rfl rfl,
    fun hlfu => (h.keeps (hkind ▸ hlfu)).updateOnHit hhit⟩

theorem called_makeRoom (maxCacheSize : ℕ) (fuel : ℕ) (st : DiskState K Λ X E) (h : st.Settled)
    (hfuel : st.dict.items.length ≤ fuel)
    (hclear : ∀ turn ∈ roomTurns maxCacheSize size fuel st,
      turn.policy.ScanClear canEvict turn.dict) :
    Called st (makeRoom maxCacheSize size fuel st).2
      ((roomTurns maxCacheSize size fuel st).map askCandidate) := by
  induction fuel generalizing st with
  | zero =>
    rw [roomTurns] at hclear ⊢
    rw [makeRoom]
    split_ifs at hclear ⊢ with hroom
    · exact called_same h rfl (fun _ => rfl) rfl rfl
    · obtain ⟨found, policy, hfound⟩ :=
        exists_getEvictCandidates (hclear st List.mem_cons_self) h.exact
      have hfollows := follows_getEvictCandidates h.keeps hfound
      rw [hfound]
      cases found with
      | none =>
        obtain ⟨rfl, _⟩ := none_of_getEvictCandidates hfound
        exact ⟨hfollows, rfl, h⟩
      | some evictKey =>
        obtain ⟨m, hget, _⟩ := (candidate_of_getEvictCandidates hfound).stored
        exact absurd (length_erase_lt hget) (by omega)
  | succ fuel ih =>
    rw [roomTurns] at hclear ⊢
    rw [makeRoom]
    split_ifs at hclear ⊢ with hroom
    · exact called_same h rfl (fun _ => rfl) rfl rfl
    · obtain ⟨found, policy, hfound⟩ :=
        exists_getEvictCandidates (hclear st List.mem_cons_self) h.exact
      have hfollows := follows_getEvictCandidates h.keeps hfound
      rw [hfound] at hclear ⊢
      cases found with
      | none =>
        obtain ⟨rfl, _⟩ := none_of_getEvictCandidates hfound
        exact ⟨hfollows, rfl, h⟩
      | some evictKey =>
        obtain ⟨m, hget, _⟩ := (candidate_of_getEvictCandidates hfound).stored
        have hkind := (forgets_getEvictCandidates hfound).1.kind
        have hsettled : ({ st with
            policy := policy
            currentCacheSize := st.currentCacheSize - m.size }.evict evictKey m).1.Settled :=
          ⟨h.registered.congr rfl rfl, fun hlfu =>
            (h.keeps (hkind ▸ hlfu)).getEvictCandidates (hkind ▸ hlfu) hfound⟩
        dsimp only at hclear ⊢
        rw [hget] at hclear ⊢
        dsimp only at hclear ⊢
        split_ifs at hclear ⊢ with hfile
        · have hfewer : (st.dict.erase evictKey).items.length ≤ fuel := by
            have hlt := length_erase_lt hget
            omega
          have hrest := ih _ hsettled hfewer
            fun turn hturn => hclear turn (List.mem_cons_of_mem _ hturn)
          exact ⟨hfollows.append hrest.follows, hrest.kind.trans hkind, hrest.settled⟩
        · exact ⟨hfollows, hkind, hsettled⟩

end DiskState

end LMCache
