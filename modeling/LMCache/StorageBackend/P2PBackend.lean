import Mathlib.Data.List.Nodup
import LMCache.Foundations.Execution

namespace LMCache

open Function

structure BatchedLookupAndGetMsg (R K A : Type) where
  lookupId : R
  attempt : ℕ
  keys : List K
  memIndexes : List A

inductive P2PRetMsg where
  | numHitChunks (n : ℕ)
  | serverError
  | remoteXferHandlerNotInitialized

inductive P2PGetPhase where
  | ready
  | waiting
  | uninitialized
  | timedOut
  | done (numHitChunks : ℕ)
  | raised
  deriving DecidableEq

def P2PGetPhase.live : P2PGetPhase → Bool
  | .done _ | .raised => false
  | _ => true

structure P2PGet (P K A : Type) where
  targetPeer : P
  keys : List K
  memObjs : List A
  retryCount : ℕ
  phase : P2PGetPhase

inductive P2PHolder (R : Type) where
  | free
  | client
  | request (lookupId : R)
  deriving DecidableEq

inductive P2PServing (R K A B : Type) where
  | idle
  | received (msg : BatchedLookupAndGetMsg R K A)
  | transferring (msg : BatchedLookupAndGetMsg R K A) (numHitChunks : ℕ) (pages : List (A × B))

namespace P2PServing

variable {R K A B : Type}

def msg? : P2PServing R K A B → Option (BatchedLookupAndGetMsg R K A)
  | .idle => none
  | .received msg | .transferring msg _ _ => some msg

end P2PServing

structure P2PPeer (R K A B : Type) where
  hotCache : K → Option B
  serving : P2PServing R K A B

def hitObjs {K B : Type} (hotCache : K → Option B) : List K → List B
  | [] => []
  | key :: keys =>
      match hotCache key with
      | none => []
      | some obj => obj :: hitObjs hotCache keys

-- A is the memory of all requesters; stored, returned and released record what peers have cached,
-- what was returned for each key and which buffer was released for which request
structure P2PRun (P R K A B : Type) where
  gets : R → Option (P2PGet P K A)
  holders : A → P2PHolder R
  memory : A → B
  peers : P → P2PPeer R K A B
  network : List (P × BatchedLookupAndGetMsg R K A)
  replies : List (R × ℕ × P2PRetMsg)
  stored : List (K × B)
  returned : List (K × B)
  released : List (R × A)

inductive P2PEvent (P R K A B : Type) where
  | start (lookupId : R) (targetPeer : P) (keys : List K) (memObjs : List A)
  | send (lookupId : R)
  | sendFails (lookupId : R)
  | timeout (lookupId : R)
  | receive (reply : ℕ)
  | receiveFails (reply : ℕ)
  | reconnected (lookupId : R)
  | reconnectFails (lookupId : R) (zmqError : Bool)
  | deliver (msg : ℕ)
  | loseMsg (msg : ℕ)
  | loseReply (reply : ℕ)
  | refuse (peer : P)
  | lookup (peer : P)
  | write (peer : P) (page : ℕ)
  | answer (peer : P)
  | fail (peer : P)
  | crash (peer : P)
  | cache (peer : P) (key : K) (obj : B)
  | evict (peer : P) (key : K)
  | allocate (addr : A) (bytes : B)
  | overwrite (addr : A) (bytes : B)
  | free (addr : A)

namespace P2PRun

variable {P R K A B : Type}

def init (memory : A → B) : P2PRun P R K A B where
  gets := fun _ => none
  holders := fun _ => .free
  memory
  peers := fun _ => ⟨fun _ => none, .idle⟩
  network := []
  replies := []
  stored := []
  returned := []
  released := []

def getIn (run : P2PRun P R K A B) (lookupId : R) (phase : P2PGetPhase) : Option (P2PGet P K A) :=
  (run.gets lookupId).filter (fun get => get.phase = phase)

def awaiting (run : P2PRun P R K A B) (lookupId : R) (attempt : ℕ) : Option (P2PGet P K A) :=
  (run.getIn lookupId .waiting).filter (fun get => get.retryCount = attempt)

variable [DecidableEq P] [DecidableEq R] [DecidableEq K] [DecidableEq A] (run : P2PRun P R K A B)
  (lookupId : R) (get : P2PGet P K A)

def setGet : P2PRun P R K A B :=
  { run with gets := update run.gets lookupId (some get) }

def setPhase (phase : P2PGetPhase) : P2PRun P R K A B :=
  run.setGet lookupId { get with phase := phase }

variable (peer : P)

def setPeer (state : P2PPeer R K A B) : P2PRun P R K A B :=
  { run with peers := update run.peers peer state }

def setServing (serving : P2PServing R K A B) : P2PRun P R K A B :=
  run.setPeer peer { run.peers peer with serving := serving }

def reply (msg : BatchedLookupAndGetMsg R K A) (ret : P2PRetMsg) : P2PRun P R K A B :=
  { run with replies := run.replies ++ [(msg.lookupId, msg.attempt, ret)] }

def finish (numHitChunks : ℕ) : P2PRun P R K A B :=
  { run.setPhase lookupId get (.done numHitChunks) with
    holders := fun addr =>
      if addr ∈ get.memObjs.take numHitChunks then .client
      else if addr ∈ get.memObjs.drop numHitChunks then .free else run.holders addr
    returned := run.returned ++
      ((get.keys.zip get.memObjs).take numHitChunks).map (fun e => (e.1, run.memory e.2))
    released := run.released ++ (get.memObjs.drop numHitChunks).map (fun addr => (lookupId, addr)) }

def hold : P2PRun P R K A B :=
  { run.setGet lookupId get with
    holders := fun addr => if addr ∈ get.memObjs then .request lookupId else run.holders addr }

variable (maxRetryCount : ℕ)

def start (lookupId : R) (targetPeer : P) (keys : List K) (memObjs : List A) : P2PRun P R K A B :=
  if run.gets lookupId = none ∧ memObjs.Nodup ∧ memObjs.length = keys.length ∧
      ∀ addr ∈ memObjs, run.holders addr = .free then
    run.hold lookupId ⟨targetPeer, keys, memObjs, 0, if maxRetryCount = 0 then .raised else .ready⟩
  else run

def send : P2PRun P R K A B :=
  match run.getIn lookupId .ready with
  | none => run
  | some get =>
      { run.setGet lookupId { get with retryCount := get.retryCount + 1, phase := .waiting } with
        network := run.network ++
          [(get.targetPeer, ⟨lookupId, get.retryCount + 1, get.keys, get.memObjs⟩)] }

def sendFails : P2PRun P R K A B :=
  match run.getIn lookupId .ready with
  | none => run
  | some get =>
      run.setGet lookupId { get with retryCount := get.retryCount + 1, phase := .timedOut }

def timeout : P2PRun P R K A B :=
  match run.getIn lookupId .waiting with
  | none => run
  | some get => run.setPhase lookupId get .timedOut

def receive (attempt : ℕ) (ret : P2PRetMsg) : P2PRun P R K A B :=
  match run.awaiting lookupId attempt with
  | none => run
  | some get =>
      match ret with
      | .numHitChunks n => run.finish lookupId get n
      | .serverError => run.finish lookupId get 0
      | .remoteXferHandlerNotInitialized => run.setPhase lookupId get .uninitialized

def receiveFails (attempt : ℕ) : P2PRun P R K A B :=
  match run.awaiting lookupId attempt with
  | none => run
  | some get => run.finish lookupId get 0

def reconnected (lookupId : R) : P2PRun P R K A B :=
  match run.gets lookupId with
  | none => run
  | some get =>
      if get.phase = .uninitialized ∨ get.phase = .timedOut then
        if get.retryCount < maxRetryCount then run.setPhase lookupId get .ready
        else run.finish lookupId get 0
      else run

def reconnectFails (zmqError : Bool) : P2PRun P R K A B :=
  match run.gets lookupId with
  | none => run
  | some get =>
      if get.phase = .uninitialized then
        if zmqError then run.setPhase lookupId get .timedOut else run.finish lookupId get 0
      else if get.phase = .timedOut then run.setPhase lookupId get .raised
      else run

def lookup : P2PRun P R K A B :=
  match (run.peers peer).serving with
  | .received msg =>
      let objs := hitObjs (run.peers peer).hotCache msg.keys
      if objs = [] then (run.setServing peer .idle).reply msg .serverError
      else run.setServing peer (.transferring msg objs.length (msg.memIndexes.zip objs))
  | _ => run

def write (page : ℕ) : P2PRun P R K A B :=
  match (run.peers peer).serving with
  | .transferring msg numHitChunks pages =>
      match pages[page]? with
      | none => run
      | some (addr, bytes) =>
          { run.setServing peer (.transferring msg numHitChunks (pages.eraseIdx page)) with
            memory := update run.memory addr bytes }
  | _ => run

def answer : P2PRun P R K A B :=
  match (run.peers peer).serving with
  | .transferring msg numHitChunks [] =>
      (run.setServing peer .idle).reply msg (.numHitChunks numHitChunks)
  | _ => run

def exec (run : P2PRun P R K A B) : P2PEvent P R K A B → P2PRun P R K A B
  | .start lookupId targetPeer keys memObjs =>
      run.start maxRetryCount lookupId targetPeer keys memObjs
  | .send lookupId => run.send lookupId
  | .sendFails lookupId => run.sendFails lookupId
  | .timeout lookupId => run.timeout lookupId
  | .receive i =>
      match run.replies[i]? with
      | none => run
      | some (lookupId, attempt, ret) =>
          { run with replies := run.replies.eraseIdx i }.receive lookupId attempt ret
  | .receiveFails i =>
      match run.replies[i]? with
      | none => run
      | some (lookupId, attempt, _) =>
          { run with replies := run.replies.eraseIdx i }.receiveFails lookupId attempt
  | .reconnected lookupId => run.reconnected maxRetryCount lookupId
  | .reconnectFails lookupId zmqError => run.reconnectFails lookupId zmqError
  | .deliver i =>
      match run.network[i]? with
      | none => run
      | some (peer, msg) =>
          match (run.peers peer).serving with
          | .idle => { run with network := run.network.eraseIdx i }.setServing peer (.received msg)
          | _ => run
  | .loseMsg i => { run with network := run.network.eraseIdx i }
  | .loseReply i => { run with replies := run.replies.eraseIdx i }
  | .refuse peer =>
      match (run.peers peer).serving with
      | .received msg => (run.setServing peer .idle).reply msg .remoteXferHandlerNotInitialized
      | _ => run
  | .lookup peer => run.lookup peer
  | .write peer page => run.write peer page
  | .answer peer => run.answer peer
  | .fail peer =>
      match (run.peers peer).serving.msg? with
      | none => run
      | some msg => (run.setServing peer .idle).reply msg .serverError
  | .crash peer => run.setServing peer .idle
  | .cache peer key obj =>
      { run.setPeer peer
          { run.peers peer with
            hotCache := update (run.peers peer).hotCache key (some obj) } with
        stored := run.stored ++ [(key, obj)] }
  | .evict peer key =>
      run.setPeer peer
        { run.peers peer with hotCache := update (run.peers peer).hotCache key none }
  | .allocate addr bytes =>
      if run.holders addr = .free then
        { run with
          holders := update run.holders addr .client
          memory := update run.memory addr bytes }
      else run
  | .overwrite addr bytes =>
      if run.holders addr = .client then
        { run with memory := update run.memory addr bytes }
      else run
  | .free addr =>
      if run.holders addr = .client then
        { run with holders := update run.holders addr .free }
      else run

end P2PRun

end LMCache
