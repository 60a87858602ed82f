import LMCache.CacheController.Registry
import LMCache.CacheEngineKey
import LMCache.StorageBackend.CachePolicy

namespace LMCache

structure MemObj where
  valid : Bool
  refCount : ℕ
  pinCount : ℕ
deriving DecidableEq

namespace MemObj

variable (obj : MemObj)

def free : MemObj := { obj with valid := false }

def refCountUp : MemObj := { obj with refCount := obj.refCount + 1 }

def refCountDown : MemObj :=
  let obj := { obj with refCount := obj.refCount - 1 }
  if obj.refCount = 0 ∧ obj.pinCount = 0 then obj.free else obj

def pin : MemObj := { obj with pinCount := obj.pinCount + 1 }

def unpin : MemObj :=
  let obj := { obj with pinCount := obj.pinCount - 1 }
  if obj.pinCount = 0 ∧ obj.refCount = 0 then obj.free else obj

def canEvict : Bool := decide (obj.pinCount = 0 ∧ obj.refCount = 1)

end MemObj

-- the hot cache has the objects by number. held counts the references that callers have taken and
-- not yet given back, removing has the forced removals that have yet to queue their EVICT, and
-- added has what was ever queued
structure CPUState where
  hotCache : Dict HotKey ℕ
  policy : CachePolicy HotKey
  objs : ℕ → MemObj
  nextObj : ℕ
  held : ℕ → ℕ
  keysInRequest : List HotKey
  removing : List HotKey
  messageQueue : List (OpType × ℕ)
  opsToSend : List (KVOpEvent ℕ)
  sequenceNumber : ℕ
  sent : List (List (KVOpEvent ℕ))
  added : List (OpType × ℕ)

inductive CPUEvent where
  | allocate
  | submitPutTask (key : HotKey) (obj : ℕ)
  | getBlocking (key : HotKey)
  | refCountDown (obj : ℕ)
  | contains (key : HotKey) (pin : Bool)
  | pin (key : HotKey)
  | unpin (key : HotKey)
  | touchCache
  | remove (key : HotKey)
  | queueEvict (key : HotKey)
  | evictOne
  | evictBatch (batchSize : ℕ)
  | drain
  | send

namespace CPUState

def start (kind : PolicyKind) : CPUState :=
  ⟨Dict.empty, .init kind, fun _ => ⟨false, 0, 0⟩, 0, fun _ => 0, [], [], [], [], 0, [], []⟩

variable (st : CPUState)

def modify (obj : ℕ) (f : MemObj → MemObj) : CPUState :=
  { st with
    objs := fun i => if i = obj then f (st.objs i) else st.objs i }

def setHeld (obj : ℕ) (n : ℕ) : CPUState :=
  { st with
    held := fun i => if i = obj then n else st.held i }

def addKvOp (opType : OpType) (key : HotKey) : CPUState :=
  { st with
    messageQueue := st.messageQueue ++ [(opType, key.chunkHash)]
    added := st.added ++ [(opType, key.chunkHash)] }

def allocate : CPUState :=
  ({ st with nextObj := st.nextObj + 1 }.modify st.nextObj fun _ => ⟨true, 1, 0⟩).setHeld st.nextObj 1

variable (key : HotKey)

def submitPutTask (obj : ℕ) : CPUState :=
  if st.hotCache.contains key then st
  else
    ({ st with
      hotCache := st.hotCache.set key obj
      policy := st.policy.updateOnPut key }.modify obj MemObj.refCountUp).addKvOp .kvAdmit key

def getBlocking : CPUState :=
  match st.hotCache.get? key with
  | none => st
  | some obj => (st.modify obj MemObj.refCountUp).setHeld obj (st.held obj + 1)

def refCountDown (st : CPUState) (obj : ℕ) : CPUState :=
  (st.modify obj MemObj.refCountDown).setHeld obj (st.held obj - 1)

def modifyKey (f : MemObj → MemObj) : CPUState :=
  match st.hotCache.get? key with
  | none => st
  | some obj => st.modify obj f

def contains (st : CPUState) (key : HotKey) (pin : Bool) : CPUState :=
  if st.hotCache.contains key && pin then
    { st with keysInRequest := st.keysInRequest ++ [key] }.modifyKey key MemObj.pin
  else st

def touchKeys : List HotKey → CPUState → CPUState
  | [], st => { st with keysInRequest := [] }
  | key :: keys, st =>
      match st.policy.updateOnHit key st.hotCache with
      | none => st
      | some (policy, hotCache) => touchKeys keys { st with policy := policy, hotCache := hotCache }

def touchCache : CPUState := touchKeys st.keysInRequest.reverse st

def pop (obj : ℕ) : CPUState :=
  { st with hotCache := st.hotCache.erase key }.modify obj MemObj.refCountDown

def remove : Bool × CPUState :=
  match st.hotCache.get? key with
  | none => (false, st)
  | some obj =>
      match st.policy.updateOnForceEvict key with
      | none => (true, st.pop key obj)
      | some policy => (false, { st.pop key obj with
          policy := policy
          removing := st.removing ++ [key] })

def queueEvict : CPUState :=
  if key ∈ st.removing then
    { st with removing := st.removing.erase key }.addKvOp .kvEvict key
  else st

def evictKey : CPUState :=
  match st.hotCache.get? key with
  | none => st
  | some obj => (st.pop key obj).addKvOp .kvEvict key

def canEvict (st : CPUState) (obj : ℕ) : Bool := (st.objs obj).canEvict

def evictOne : Bool × CPUState :=
  match st.policy.getEvictCandidates st.canEvict st.hotCache with
  | none => (true, st)
  | some (none, policy) => (false, { st with policy := policy })
  | some (some key, policy) => (false, { st with policy := policy }.evictKey key)

def popLayers : List HotKey → List ℕ → CPUState → Option (List ℕ) × CPUState
  | [], oldMemObjs, st => (some oldMemObjs, st)
  | key :: keys, oldMemObjs, st =>
      match st.hotCache.get? key with
      | none => (none, st)
      | some obj =>
          match st.policy.updateOnForceEvict key with
          | none => (none, st)
          | some policy =>
              popLayers keys (oldMemObjs ++ [obj])
                { st with policy := policy, hotCache := st.hotCache.erase key }

def batchedFree (memoryObjs : List ℕ) : CPUState :=
  { st with
    objs := fun i => if i ∈ memoryObjs then (st.objs i).free else st.objs i }

def evictLayers (layers : List HotKey) : Bool × CPUState :=
  match popLayers layers [] st with
  | (none, st) => (true, st)
  | (some oldMemObjs, st) => (false, st.batchedFree oldMemObjs)

def evictBatch (batchSize : ℕ) : Bool × CPUState :=
  match st.policy.getEvictCandidates st.canEvict st.hotCache with
  | none => (true, st)
  | some (none, policy) => (false, { st with policy := policy })
  | some (some key, policy) => { st with policy := policy }.evictLayers (key.splitLayers batchSize)

def drain : CPUState :=
  match st.messageQueue with
  | [] => st
  | (opType, key) :: messageQueue => { st with
      messageQueue := messageQueue
      opsToSend := st.opsToSend ++ [⟨opType, key, st.sequenceNumber⟩]
      sequenceNumber := st.sequenceNumber + 1 }

def send : CPUState :=
  if st.opsToSend = [] then st
  else { st with sent := st.sent ++ [st.opsToSend], opsToSend := [] }

def step : CPUEvent → Bool × CPUState
  | .allocate => (false, st.allocate)
  | .submitPutTask key obj => (false, if obj < st.nextObj then st.submitPutTask key obj else st)
  | .getBlocking key => (false, st.getBlocking key)
  | .refCountDown obj => (false, if 0 < st.held obj then st.refCountDown obj else st)
  | .contains key pin => (false, st.contains key pin)
  | .pin key => (false, st.modifyKey key MemObj.pin)
  | .unpin key => (false, st.modifyKey key MemObj.unpin)
  | .touchCache => (false, st.touchCache)
  | .remove key => st.remove key
  | .queueEvict key => (false, st.queueEvict key)
  | .evictOne => st.evictOne
  | .evictBatch batchSize => st.evictBatch batchSize
  | .drain => (false, st.drain)
  | .send => (false, st.send)

def exec (event : CPUEvent) : CPUState := (st.step event).2

end CPUState

end LMCache
