import LMCache.Utils.KeyIdentity

namespace LMCache.Utils

def CacheEngineKey.withNewWorkerId (k : CacheEngineKey) (newWorkerId : ℤ) : CacheEngineKey :=
  { k with workerId := newWorkerId }

def Key.withNewWorkerId : Key → ℤ → Key
  | .chunk k, newWorkerId => .chunk (k.withNewWorkerId newWorkerId)
  | .layer k, newWorkerId => .chunk (k.toCacheEngineKey.withNewWorkerId newWorkerId)

end LMCache.Utils

namespace LMCache

open Utils

structure RemoteConnection (O : Type) where
  supportBatchedContains : Bool
  supportBatchedGet : Bool
  supportBatchedAsyncContains : Bool
  existsSync : Key → Option Bool
  exists' : Key → Option Bool
  batchedContains : List Key → Option ℕ
  get : Key → Option (Option O)
  batchedGet : List Key → Option (List (Option O))
  batchedAsyncContains : String → List Key → Bool → Option ℕ
  batchedGetNonBlocking : String → List Key → Option (List O)
  removeSync : Key → Option Bool

inductive RemoteRequest where
  | existsSync (key : Key)
  | exists' (key : Key)
  | batchedContains (keys : List Key)
  | get (key : Key)
  | batchedGet (keys : List Key)
  | batchedAsyncContains (lookupId : String) (keys : List Key) (pin : Bool)
  | batchedGetNonBlocking (lookupId : String) (keys : List Key)
  | removeSync (key : Key)

structure RemoteReads (O : Type) where
  connection : Option (RemoteConnection O)
  hasLocalCpuBackend : Bool
  mlaWorkerIdAs0Mode : Bool
  useExistsSync : Bool
  deserialize : O → O

inductive RemoteOp where
  | contains (key : Key) (pin : Bool)
  | batchedContains (keys : List Key) (pin : Bool)
  | batchedAsyncContains (lookupId : String) (keys : List Key) (pin : Bool)
  | getBlocking (key : Key)
  | batchedGetBlocking (keys : List Key)
  | batchedGetNonBlocking (lookupId : String) (keys : List Key)
  | remove (key : Key)

def RemoteRequest.keys : RemoteRequest → List Key
  | .existsSync key => [key]
  | .exists' key => [key]
  | .batchedContains keys => keys
  | .get key => [key]
  | .batchedGet keys => keys
  | .batchedAsyncContains _ keys _ => keys
  | .batchedGetNonBlocking _ keys => keys
  | .removeSync key => [key]

def RemoteOp.keys : RemoteOp → List Key
  | .contains key _ => [key]
  | .batchedContains keys _ => keys
  | .batchedAsyncContains _ keys _ => keys
  | .getBlocking key => [key]
  | .batchedGetBlocking keys => keys
  | .batchedGetNonBlocking _ keys => keys
  | .remove key => [key]

namespace RemoteReads

variable {O : Type}

def remoteKey (mlaWorkerIdAs0Mode : Bool) (key : Key) : Key :=
  if mlaWorkerIdAs0Mode then key.withNewWorkerId 0 else key

def contains (b : RemoteReads O) (key : Key) (_pin : Bool) : List RemoteRequest × Bool :=
  match b.connection with
  | none => ([], false)
  | some connection =>
      let key := remoteKey b.mlaWorkerIdAs0Mode key
      if b.useExistsSync then ([.existsSync key], (connection.existsSync key).getD false)
      else ([.exists' key], (connection.exists' key).getD false)

def superBatchedContains (b : RemoteReads O) (pin : Bool) : List Key → List RemoteRequest × ℕ
  | [] => ([], 0)
  | key :: keys =>
      match b.contains key pin with
      | (requests, false) => (requests, 0)
      | (requests, true) =>
          let (rest, hitChunks) := b.superBatchedContains pin keys
          (requests ++ rest, hitChunks + 1)

def batchedContains (b : RemoteReads O) (keys : List Key) (pin : Bool) : List RemoteRequest × ℕ :=
  match b.connection with
  | none => ([], 0)
  | some connection =>
      if connection.supportBatchedContains then
        let keys := keys.map (remoteKey b.mlaWorkerIdAs0Mode)
        ([.batchedContains keys], (connection.batchedContains keys).getD 0)
      else b.superBatchedContains pin keys

def getBlocking (b : RemoteReads O) (key : Key) : List RemoteRequest × Option O :=
  if b.hasLocalCpuBackend = false then ([], none)
  else
    match b.connection with
    | none => ([], none)
    | some connection =>
        let key := remoteKey b.mlaWorkerIdAs0Mode key
        ([.get key], ((connection.get key).getD none).map b.deserialize)

def awaitGets (connection : RemoteConnection O) : List Key → List (Option O)
  | [] => []
  | key :: keys =>
      match connection.get key with
      | none => List.replicate (keys.length + 1) none
      | some memoryObj => memoryObj :: awaitGets connection keys

def batchedGetBlocking (b : RemoteReads O) (keys : List Key) :
    List RemoteRequest × Option (List (Option O)) :=
  if b.hasLocalCpuBackend = false then ([], some (keys.map fun _ => none))
  else
    match b.connection with
    | none => ([], some (keys.map fun _ => none))
    | some connection =>
        let keys := keys.map (remoteKey b.mlaWorkerIdAs0Mode)
        let (requests, memoryObjs) :=
          if connection.supportBatchedGet then
            ([.batchedGet keys], (connection.batchedGet keys).getD (keys.map fun _ => none))
          else (keys.map .get, awaitGets connection keys)
        let decompressed := memoryObjs.map (Option.map b.deserialize)
        (requests, if decompressed.length = keys.length then some decompressed else none)

def batchedAsyncContains (b : RemoteReads O) (lookupId : String) (keys : List Key) (pin : Bool) :
    List RemoteRequest × ℕ :=
  match b.connection with
  | none => ([], 0)
  | some connection =>
      let keys := keys.map (remoteKey b.mlaWorkerIdAs0Mode)
      if connection.supportBatchedAsyncContains then
        ([.batchedAsyncContains lookupId keys pin],
          (connection.batchedAsyncContains lookupId keys pin).getD 0)
      else ([], 0)

def batchedGetNonBlocking (b : RemoteReads O) (lookupId : String) (keys : List Key) :
    List RemoteRequest × List O :=
  if b.hasLocalCpuBackend = false then ([], [])
  else
    match b.connection with
    | none => ([], [])
    | some connection =>
        ([.batchedGetNonBlocking lookupId keys],
          (connection.batchedGetNonBlocking lookupId keys).getD [])

def remove (b : RemoteReads O) (key : Key) : List RemoteRequest × Bool :=
  match b.connection with
  | none => ([], false)
  | some connection => ([.removeSync key], (connection.removeSync key).getD false)

def requests (b : RemoteReads O) : RemoteOp → List RemoteRequest
  | .contains key pin => (b.contains key pin).1
  | .batchedContains keys pin => (b.batchedContains keys pin).1
  | .batchedAsyncContains lookupId keys pin => (b.batchedAsyncContains lookupId keys pin).1
  | .getBlocking key => (b.getBlocking key).1
  | .batchedGetBlocking keys => (b.batchedGetBlocking keys).1
  | .batchedGetNonBlocking lookupId keys => (b.batchedGetNonBlocking lookupId keys).1
  | .remove key => (b.remove key).1

def Asks (b : RemoteReads O) (op : RemoteOp) (key remote : Key) : Prop :=
  ∃ i : ℕ, op.keys[i]? = some key ∧ ((b.requests op).flatMap RemoteRequest.keys)[i]? = some remote

def storedIdentity (mlaWorkerIdAs0Mode : Bool) (key : Key) : KeyIdentity :=
  if mlaWorkerIdAs0Mode then { key.identity with workerId := 0 } else key.identity

def Differ (key key' : Key) : Prop :=
  key.layerId ≠ key'.layerId ∨ key.base.chunkHash ≠ key'.base.chunkHash

structure Addressed (O : Type) (mlaWorkerIdAs0Mode : Bool) (keys : Set Key) : Prop where
  same : ∀ b : RemoteReads O, b.mlaWorkerIdAs0Mode = mlaWorkerIdAs0Mode →
    ∀ op, ∀ key ∈ keys, ∀ remote, b.Asks op key remote →
      remote.identity = storedIdentity mlaWorkerIdAs0Mode key
  apart : ∀ b : RemoteReads O, b.mlaWorkerIdAs0Mode = mlaWorkerIdAs0Mode →
    ∀ op op', ∀ key ∈ keys, ∀ key' ∈ keys, ∀ remote remote', b.Asks op key remote →
      b.Asks op' key' remote' → Differ key key' → remote.identity ≠ remote'.identity

variable {b : RemoteReads O}

theorem contains_requests (b : RemoteReads O) (key : Key) (pin : Bool) :
    (b.contains key pin).1.flatMap RemoteRequest.keys <+: [remoteKey b.mlaWorkerIdAs0Mode key] := by
  rw [contains]
  cases b.connection with
  | none => exact List.nil_prefix
  | some connection =>
    dsimp only
    split_ifs
    · exact List.prefix_rfl
    · exact List.prefix_rfl

theorem contains_hit (b : RemoteReads O) (key : Key) (pin : Bool)
    (h : (b.contains key pin).2 = true) :
    (b.contains key pin).1.flatMap RemoteRequest.keys = [remoteKey b.mlaWorkerIdAs0Mode key] := by
  rw [contains] at h ⊢
  cases hconnection : b.connection with
  | none =>
    rw [hconnection] at h
    cases h
  | some connection =>
    dsimp only
    split_ifs
    · rfl
    · rfl

theorem superBatchedContains_requests (b : RemoteReads O) (pin : Bool) (keys : List Key) :
    (b.superBatchedContains pin keys).1.flatMap RemoteRequest.keys <+:
      keys.map (remoteKey b.mlaWorkerIdAs0Mode) := by
  induction keys with
  | nil => exact List.nil_prefix
  | cons key keys ih =>
    rw [superBatchedContains]
    have hrequests := contains_requests b key pin
    have hhit := contains_hit b key pin
    generalize b.contains key pin = found at hrequests hhit ⊢
    obtain ⟨requests, hit⟩ := found
    cases hit with
    | false => exact hrequests.trans (List.prefix_append [_] _)
    | true =>
      dsimp only at hhit ⊢
      rw [List.flatMap_append, hhit rfl]
      exact (List.prefix_append_right_inj _).mpr ih

theorem requests_keys (b : RemoteReads O) (op : RemoteOp) :
    (b.requests op).flatMap RemoteRequest.keys <+: op.keys.map (remoteKey b.mlaWorkerIdAs0Mode) ∨
      (b.requests op).flatMap RemoteRequest.keys <+: op.keys := by
  cases op with
  | contains key pin => exact .inl (contains_requests b key pin)
  | batchedContains keys pin =>
    left
    change (b.batchedContains keys pin).1.flatMap _ <+: keys.map _
    rw [batchedContains]
    cases b.connection with
    | none => exact List.nil_prefix
    | some connection =>
      dsimp only
      split_ifs
      · exact ⟨[], by simp [RemoteRequest.keys]⟩
      · exact superBatchedContains_requests b pin keys
  | batchedAsyncContains lookupId keys pin =>
    left
    change (b.batchedAsyncContains lookupId keys pin).1.flatMap _ <+: keys.map _
    rw [batchedAsyncContains]
    cases b.connection with
    | none => exact List.nil_prefix
    | some connection =>
      dsimp only
      split_ifs
      · exact ⟨[], by simp [RemoteRequest.keys]⟩
      · exact List.nil_prefix
  | getBlocking key =>
    left
    change (b.getBlocking key).1.flatMap _ <+: [key].map _
    rw [getBlocking]
    split_ifs
    · exact List.nil_prefix
    · cases b.connection with
      | none => exact List.nil_prefix
      | some connection => exact List.prefix_rfl
  | batchedGetBlocking keys =>
    left
    change (b.batchedGetBlocking keys).1.flatMap _ <+: keys.map _
    rw [batchedGetBlocking]
    split_ifs
    · exact List.nil_prefix
    · cases b.connection with
      | none => exact List.nil_prefix
      | some connection =>
        dsimp only
        split_ifs
        · exact ⟨[], by simp [RemoteRequest.keys]⟩
        · refine ⟨[], ?_⟩
          rw [List.append_nil, List.flatMap_map]
          exact List.flatMap_singleton' _
  | batchedGetNonBlocking lookupId keys =>
    right
    change (b.batchedGetNonBlocking lookupId keys).1.flatMap _ <+: keys
    rw [batchedGetNonBlocking]
    split_ifs
    · exact List.nil_prefix
    · cases b.connection with
      | none => exact List.nil_prefix
      | some connection => exact ⟨[], by simp [RemoteRequest.keys]⟩
  | remove key =>
    right
    change (b.remove key).1.flatMap _ <+: [key]
    rw [remove]
    cases b.connection with
    | none => exact List.nil_prefix
    | some connection => exact List.prefix_rfl

theorem getElem?_of_isPrefix {A : Type} {xs ys : List A} (h : xs <+: ys) {i : ℕ} {x : A}
    (hx : xs[i]? = some x) : ys[i]? = some x := by
  obtain ⟨rest, rfl⟩ := h
  rw [List.getElem?_append_left (List.getElem?_eq_some_iff.mp hx).1]
  exact hx

variable {key remote : Key} {op : RemoteOp}

theorem Asks.rewritten (h : b.Asks op key remote) :
    remote = remoteKey b.mlaWorkerIdAs0Mode key ∨ remote = key := by
  obtain ⟨i, hkey, hremote⟩ := h
  rcases b.requests_keys op with hprefix | hprefix
  · left
    have hmap := getElem?_of_isPrefix hprefix hremote
    rw [List.getElem?_map, hkey] at hmap
    exact (Option.some.inj hmap).symm
  · right
    have hget := getElem?_of_isPrefix hprefix hremote
    exact Option.some.inj (hget.symm.trans hkey)

variable (mlaWorkerIdAs0Mode : Bool)

def Kept (key : Key) : Prop :=
  mlaWorkerIdAs0Mode = false ∨ ∃ k, key = .chunk k ∧ k.workerId = 0

theorem Kept.remoteKey_eq {mlaWorkerIdAs0Mode : Bool} {key : Key} (h : Kept mlaWorkerIdAs0Mode key) :
    remoteKey mlaWorkerIdAs0Mode key = key := by
  rcases h with rfl | ⟨k, rfl, hworker⟩
  · rfl
  · cases mlaWorkerIdAs0Mode with
    | false => rfl
    | true =>
      change Key.chunk { k with workerId := 0 } = .chunk k
      rw [← hworker]

theorem Kept.identity_eq {mlaWorkerIdAs0Mode : Bool} {key : Key} (h : Kept mlaWorkerIdAs0Mode key) :
    key.identity = storedIdentity mlaWorkerIdAs0Mode key := by
  rcases h with rfl | ⟨k, rfl, hworker⟩
  · rfl
  · cases mlaWorkerIdAs0Mode with
    | false => rfl
    | true =>
      change Key.identity (.chunk k) = { Key.identity (.chunk k) with workerId := 0 }
      rw [← hworker]
      rfl

theorem Kept.asks (h : Kept b.mlaWorkerIdAs0Mode key) (hasks : b.Asks op key remote) :
    remote = key := by
  rcases hasks.rewritten with heq | heq
  · exact heq.trans h.remoteKey_eq
  · exact heq

theorem addressed_of_kept {mlaWorkerIdAs0Mode : Bool} {keys : Set Key}
    (h : ∀ key ∈ keys, Kept mlaWorkerIdAs0Mode key) : Addressed O mlaWorkerIdAs0Mode keys where
  same b hmode op key hkey remote hasks := by
    subst hmode
    rw [(h key hkey).asks hasks]
    exact (h key hkey).identity_eq
  apart b hmode op op' key hkey key' hkey' remote remote' hasks hasks' hdiffer heq := by
    subst hmode
    rw [(h key hkey).asks hasks, (h key' hkey').asks hasks'] at heq
    rcases hdiffer with hlayer | hhash
    · exact hlayer (congrArg KeyIdentity.layerId heq)
    · exact hhash (congrArg KeyIdentity.chunkHash heq)

def emptyConnection (O : Type) : RemoteConnection O where
  supportBatchedContains := true
  supportBatchedGet := true
  supportBatchedAsyncContains := true
  existsSync _ := none
  exists' _ := none
  batchedContains _ := none
  get _ := none
  batchedGet _ := none
  batchedAsyncContains _ _ _ := none
  batchedGetNonBlocking _ _ := none
  removeSync _ := none

def connected (O : Type) (mlaWorkerIdAs0Mode : Bool) : RemoteReads O :=
  ⟨some (emptyConnection O), true, mlaWorkerIdAs0Mode, false, id⟩

theorem asks_contains (key : Key) :
    (connected O mlaWorkerIdAs0Mode).Asks (.contains key false) key
      (remoteKey mlaWorkerIdAs0Mode key) := ⟨0, rfl, rfl⟩

theorem asks_remove (key : Key) :
    (connected O mlaWorkerIdAs0Mode).Asks (.remove key) key key := ⟨0, rfl, rfl⟩

theorem addressed_iff (keys : Set Key) :
    Addressed O mlaWorkerIdAs0Mode keys ↔
      mlaWorkerIdAs0Mode = false ∨ ∀ key ∈ keys, ∃ k, key = .chunk k ∧ k.workerId = 0 := by
  constructor
  · intro h
    cases mlaWorkerIdAs0Mode with
    | false => exact .inl rfl
    | true =>
      refine .inr fun key hkey => ?_
      have hcontains := h.same (connected O true) rfl _ key hkey _ (asks_contains true key)
      have hremove := h.same (connected O true) rfl _ key hkey _ (asks_remove true key)
      cases key with
      | chunk k => exact ⟨k, rfl, congrArg KeyIdentity.workerId hremove⟩
      | layer k =>
        have hlayer : none = some k.layerId := congrArg KeyIdentity.layerId hcontains
        cases hlayer
  · intro h
    apply addressed_of_kept
    intro key hkey
    exact h.imp_right fun hkeys => hkeys key hkey

def layerOf (layerId : ℤ) : Key :=
  .layer ⟨⟨"model".toList, 2, 1, 10, .bfloat16, none⟩, layerId⟩

theorem not_addressed_layers : ¬ Addressed Unit true {layerOf 0, layerOf 1} := by
  intro h
  refine h.apart (connected Unit true) rfl _ _ (layerOf 0) (.inl rfl) (layerOf 1) (.inr rfl) _ _
    (asks_contains true _) (asks_contains true _) (.inl (by decide)) rfl

end RemoteReads

end LMCache
