import LMCache.StorageBackend.HotEvictions

namespace LMCache

open List

namespace CPUState

open Execution

variable {st st' : CPUState} {key : HotKey} {keys : List HotKey}

section Numbers

def numbered (st : CPUState) : List (KVOpEvent ℕ) := st.sent.flatten ++ st.opsToSend

def asAdded (op : KVOpEvent ℕ) : OpType × ℕ := (op.opType, op.key)

structure Sequenced (st : CPUState) : Prop where
  consecutive : st.numbered.map KVOpEvent.seqNum = range st.sequenceNumber
  complete : st.numbered.map asAdded ++ st.messageQueue = st.added

structure Queues (st st' : CPUState) (ops : List (OpType × ℕ)) : Prop where
  sent : st'.sent = st.sent
  opsToSend : st'.opsToSend = st.opsToSend
  sequenceNumber : st'.sequenceNumber = st.sequenceNumber
  messageQueue : st'.messageQueue = st.messageQueue ++ ops
  added : st'.added = st.added ++ ops

theorem Queues.refl (st : CPUState) : Queues st st [] :=
  ⟨rfl, rfl, rfl, (append_nil _).symm, (append_nil _).symm⟩

theorem Queues.of_eq (hsent : st'.sent = st.sent) (hopsToSend : st'.opsToSend = st.opsToSend)
    (hsequenceNumber : st'.sequenceNumber = st.sequenceNumber)
    (hmessageQueue : st'.messageQueue = st.messageQueue) (hadded : st'.added = st.added) :
    Queues st st' [] :=
  ⟨hsent, hopsToSend, hsequenceNumber, hmessageQueue.trans (append_nil _).symm,
    hadded.trans (append_nil _).symm⟩

theorem queues_addKvOp (st : CPUState) (opType : OpType) (key : HotKey) :
    Queues st (st.addKvOp opType key) [(opType, key.chunkHash)] := ⟨rfl, rfl, rfl, rfl, rfl⟩

theorem Queues.sequenced {ops : List (OpType × ℕ)} (h : Queues st st' ops) (hseq : st.Sequenced) :
    st'.Sequenced := by
  have hnumbered : st'.numbered = st.numbered := by rw [numbered, h.sent, h.opsToSend, numbered]
  refine ⟨?_, ?_⟩
  · rw [hnumbered, h.sequenceNumber]
    exact hseq.consecutive
  · rw [hnumbered, h.messageQueue, h.added, ← append_assoc, hseq.complete]

theorem sequenced_drain (h : st.Sequenced) : st.drain.Sequenced := by
  rw [drain]
  split
  · exact h
  · rename_i opType key rest hqueue
    have hcomplete := h.complete
    rw [hqueue] at hcomplete
    have hnumbered : ∀ op : KVOpEvent ℕ, st.sent.flatten ++ (st.opsToSend ++ [op]) =
        st.numbered ++ [op] := fun _ => (append_assoc _ _ _).symm
    refine ⟨?_, ?_⟩
    · rw [numbered]
      dsimp only
      rw [hnumbered, map_append, h.consecutive, range_succ]
      rfl
    · rw [numbered]
      dsimp only
      rw [hnumbered, map_append, append_assoc]
      exact hcomplete

theorem sequenced_send (h : st.Sequenced) : st.send.Sequenced := by
  rw [send]
  split_ifs
  · exact h
  · have hnumbered : (st.sent ++ [st.opsToSend]).flatten ++ [] = st.numbered := by
      rw [append_nil, flatten_append, flatten_singleton, numbered]
    refine ⟨?_, ?_⟩
    · rw [numbered]
      dsimp only
      rw [hnumbered]
      exact h.consecutive
    · rw [numbered]
      dsimp only
      rw [hnumbered]
      exact h.complete

theorem sequenced_start (kind : PolicyKind) : (start kind).Sequenced := ⟨rfl, rfl⟩

end Numbers

section Reports

variable (ops : List (OpType × ℕ))

def viewOf : Finset ℕ :=
  ops.foldl (fun keys op => WorkerNode.applyOp keys ⟨op.1, op.2, 0⟩) ∅

def Cached (st : CPUState) (key : HotKey) : Prop := st.hotCache.contains key = true

theorem mem_viewOf_admit (hash hash' : ℕ) :
    hash ∈ viewOf (ops ++ [(.kvAdmit, hash')]) ↔ hash = hash' ∨ hash ∈ viewOf ops := by
  rw [viewOf, foldl_append]
  exact Finset.mem_insert

theorem mem_viewOf_evict (hash hash' : ℕ) :
    hash ∈ viewOf (ops ++ [(.kvEvict, hash')]) ↔ hash ≠ hash' ∧ hash ∈ viewOf ops := by
  rw [viewOf, foldl_append]
  exact Finset.mem_erase

structure Agrees (st : CPUState) : Prop where
  cached : ∀ key, st.Cached key → key.chunkHash ∈ viewOf st.added
  known : ∀ hash ∈ viewOf st.added,
    (∃ key, st.Cached key ∧ key.chunkHash = hash) ∨ ∃ key ∈ st.removing, key.chunkHash = hash

theorem Agrees.congr (h : st.Agrees) (hcached : ∀ key, st'.Cached key ↔ st.Cached key)
    (hremoving : st'.removing = st.removing) (hadded : st'.added = st.added) : st'.Agrees := by
  refine ⟨fun key hkey => ?_, fun hash hmem => ?_⟩
  · rw [hadded]
    exact h.cached key ((hcached key).mp hkey)
  · rw [hadded] at hmem
    rw [hremoving]
    refine (h.known hash hmem).imp_left fun hknown => ?_
    obtain ⟨key, hkey, hhash⟩ := hknown
    exact ⟨key, (hcached key).mpr hkey, hhash⟩

theorem agrees_admitted (h : st.Agrees) (key : HotKey)
    (hcached : ∀ key', st'.Cached key' ↔ key' = key ∨ st.Cached key')
    (hremoving : st'.removing = st.removing)
    (hadded : st'.added = st.added ++ [(.kvAdmit, key.chunkHash)]) : st'.Agrees := by
  refine ⟨fun key' hkey' => ?_, fun hash hmem => ?_⟩
  · rw [hadded, mem_viewOf_admit]
    rcases (hcached key').mp hkey' with rfl | hold
    · exact .inl rfl
    · exact .inr (h.cached key' hold)
  · rw [hadded, mem_viewOf_admit] at hmem
    rw [hremoving]
    rcases hmem with rfl | hmem
    · exact .inl ⟨key, (hcached key).mpr (.inl rfl), rfl⟩
    · refine (h.known hash hmem).imp_left fun hknown => ?_
      obtain ⟨key', hkey', hhash⟩ := hknown
      exact ⟨key', (hcached key').mpr (.inr hkey'), hhash⟩

theorem agrees_removed (h : st.Agrees) (hcached : ∀ key', st'.Cached key' ↔ key' ≠ key ∧ st.Cached key')
    (hremoving : st'.removing = st.removing ++ [key]) (hadded : st'.added = st.added) :
    st'.Agrees := by
  refine ⟨fun key' hkey' => ?_, fun hash hmem => ?_⟩
  · rw [hadded]
    exact h.cached key' ((hcached key').mp hkey').2
  · rw [hadded] at hmem
    rw [hremoving]
    rcases h.known hash hmem with ⟨key', hkey', rfl⟩ | ⟨key', hkey', rfl⟩
    · rcases eq_or_ne key' key with rfl | hne
      · exact .inr ⟨key', mem_append_right _ mem_cons_self, rfl⟩
      · exact .inl ⟨key', (hcached key').mpr ⟨hne, hkey'⟩, rfl⟩
    · exact .inr ⟨key', mem_append_left _ hkey', rfl⟩

theorem agrees_evicted_iff (h : st.Agrees) (key : HotKey) (hcached : ∀ key', st'.Cached key' → st.Cached key')
    (hgone : ∀ key', st.Cached key' → key'.chunkHash ≠ key.chunkHash → st'.Cached key')
    (hremoving : ∀ key', key'.chunkHash ≠ key.chunkHash →
      (key' ∈ st'.removing ↔ key' ∈ st.removing))
    (hadded : st'.added = st.added ++ [(.kvEvict, key.chunkHash)]) :
    st'.Agrees ↔ ∀ key', st'.Cached key' → key'.chunkHash ≠ key.chunkHash := by
  constructor
  · intro h' key' hkey'
    have hmem := h'.cached key' hkey'
    rw [hadded, mem_viewOf_evict] at hmem
    exact hmem.1
  · intro hother
    refine ⟨fun key' hkey' => ?_, fun hash hmem => ?_⟩
    · rw [hadded, mem_viewOf_evict]
      exact ⟨hother key' hkey', h.cached key' (hcached key' hkey')⟩
    · rw [hadded, mem_viewOf_evict] at hmem
      rcases h.known hash hmem.2 with ⟨key', hkey', rfl⟩ | ⟨key', hkey', rfl⟩
      · exact .inl ⟨key', hgone key' hkey' hmem.1, rfl⟩
      · exact .inr ⟨key', (hremoving key' hmem.1).mpr hkey', rfl⟩

theorem agrees_popped_iff (h : st.Agrees) (hash : ℕ) (keys : List HotKey)
    (hcached : ∀ key', st'.Cached key' ↔ st.Cached key' ∧ key' ∉ keys)
    (hstored : ∀ key' ∈ keys, st.Cached key' ∧ key'.chunkHash = hash)
    (hremoving : st'.removing = st.removing) (hadded : st'.added = st.added) :
    st'.Agrees ↔ keys = [] ∨ (∃ key', st.Cached key' ∧ key' ∉ keys ∧ key'.chunkHash = hash) ∨
      ∃ key' ∈ st.removing, key'.chunkHash = hash := by
  constructor
  · intro h'
    cases keys with
    | nil => exact .inl rfl
    | cons key' keys =>
      obtain ⟨hkey', rfl⟩ := hstored key' mem_cons_self
      have hmem := h.cached key' hkey'
      rw [← hadded] at hmem
      refine .inr ((h'.known _ hmem).imp ?_ ?_)
      · rintro ⟨key, hkey, hhash⟩
        exact ⟨key, ((hcached key).mp hkey).1, ((hcached key).mp hkey).2, hhash⟩
      · rw [hremoving]
        exact id
  · intro hkept
    refine ⟨fun key' hkey' => ?_, fun hash' hmem => ?_⟩
    · rw [hadded]
      exact h.cached key' ((hcached key').mp hkey').1
    · rw [hadded] at hmem
      rw [hremoving]
      rcases h.known hash' hmem with ⟨key', hkey', rfl⟩ | hpending
      · by_cases hpopped : key' ∈ keys
        · obtain ⟨_, rfl⟩ := hstored key' hpopped
          rcases hkept with rfl | ⟨key, hkey, hleft, hhash⟩ | hpending
          · exact absurd hpopped not_mem_nil
          · exact .inl ⟨key, (hcached key).mpr ⟨hkey, hleft⟩, hhash⟩
          · exact .inr hpending
        · exact .inl ⟨key', (hcached key').mpr ⟨hkey', hpopped⟩, rfl⟩
      · exact .inr hpending

theorem agrees_start (kind : PolicyKind) : (start kind).Agrees where
  cached _ h := absurd h (by simp [Cached, start, Dict.contains])
  known _ h := absurd h (by simp [start, viewOf])

end Reports

end CPUState

end LMCache
