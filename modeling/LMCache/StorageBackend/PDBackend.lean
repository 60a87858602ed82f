import Mathlib.Data.List.Nodup
import LMCache.Foundations.Execution

namespace LMCache

open Function

inductive PDPhase where
  | requested
  | allocating (idx : ℕ)
  | responded
  | transferring
  | finished
  | failed
  deriving DecidableEq

structure PDPut (K : Type) where
  keys : List K
  isLastPrefill : Bool
  phase : PDPhase
  alreadySentIndexes : List ℕ
  remoteIndexes : List ℕ
  pending : List (K × ℕ)

namespace PDPut

variable {K : Type}

def memObjsToSend (alreadySentIndexes : List ℕ) (keys : List K) : List K :=
  (keys.zipIdx.filter (fun e => e.2 ∉ alreadySentIndexes)).map Prod.fst

def transfers (put : PDPut K) : List (K × ℕ) :=
  (memObjsToSend put.alreadySentIndexes put.keys).zip put.remoteIndexes

end PDPut

structure PDRun (R K B : Type) where
  data : K → Option ℕ
  refCounts : ℕ → ℕ
  freeBlocks : List ℕ
  memory : ℕ → B
  puts : R → Option (PDPut K)
  serving : Option R

inductive PDEvent (R K : Type) where
  | submit (task : R) (keys : List K) (isLastPrefill : Bool)
  | accept (task : R)
  | allocateNext
  | respond
  | receive (task : R)
  | write (task : R) (page : ℕ)
  | fail (task : R)
  | finish (task : R)
  | retrieve (key : K)

namespace PDRun

variable {R K B : Type}

def init (numBlocks : ℕ) (memory : ℕ → B) : PDRun R K B where
  data := fun _ => none
  refCounts := fun _ => 0
  freeBlocks := List.range numBlocks
  memory
  puts := fun _ => none
  serving := none

def putIn (run : PDRun R K B) (task : R) (phase : PDPhase) : Option (PDPut K) :=
  (run.puts task).filter (fun put => put.phase = phase)

variable [DecidableEq R] [DecidableEq K] (run : PDRun R K B)

def setPut (task : R) (put : PDPut K) : PDRun R K B :=
  { run with puts := update run.puts task (some put) }

def allocateKey (task : R) (put : PDPut K) (idx : ℕ) (key : K) : PDRun R K B :=
  match run.data key with
  | some addr =>
      { run.setPut task
          { put with
            phase := .allocating (idx + 1)
            alreadySentIndexes := put.alreadySentIndexes ++ [idx] } with
        refCounts := update run.refCounts addr (run.refCounts addr + 1) }
  | none =>
      match run.freeBlocks with
      | [] => run
      | addr :: rest =>
          { run.setPut task
              { put with
                phase := .allocating (idx + 1)
                remoteIndexes := put.remoteIndexes ++ [addr] } with
            data := update run.data key (some addr)
            refCounts := update run.refCounts addr 1
            freeBlocks := rest }

def retrieveKey (key : K) : PDRun R K B :=
  match run.data key with
  | none => run
  | some addr =>
      if run.refCounts addr = 1 then
        { run with
          data := update run.data key none
          refCounts := update run.refCounts addr 0
          freeBlocks := run.freeBlocks ++ [addr] }
      else { run with refCounts := update run.refCounts addr (run.refCounts addr - 1) }

def served : Option (R × PDPut K × ℕ) :=
  match run.serving with
  | none => none
  | some task =>
      match run.puts task with
      | none => none
      | some put =>
          match put.phase with
          | .allocating idx => some (task, put, idx)
          | _ => none

def exec (chunk : K → B) (run : PDRun R K B) : PDEvent R K → PDRun R K B
  | .submit task keys isLastPrefill =>
      match run.puts task with
      | some _ => run
      | none => run.setPut task ⟨keys, isLastPrefill, .requested, [], [], []⟩
  | .accept task =>
      match run.serving, run.putIn task .requested with
      | none, some put =>
          { run.setPut task { put with phase := .allocating 0 } with serving := some task }
      | _, _ => run
  | .allocateNext =>
      match run.served with
      | none => run
      | some (task, put, idx) =>
          match put.keys[idx]? with
          | none => run
          | some key => run.allocateKey task put idx key
  | .respond =>
      match run.served with
      | none => run
      | some (task, put, idx) =>
          if idx = put.keys.length then
            { run.setPut task { put with phase := .responded } with serving := none }
          else run
  | .receive task =>
      match run.putIn task .responded with
      | none => run
      | some put =>
          run.setPut task { put with phase := .transferring, pending := put.transfers }
  | .write task page =>
      match run.putIn task .transferring with
      | none => run
      | some put =>
          match put.pending[page]? with
          | none => run
          | some (key, addr) =>
              { run.setPut task { put with pending := put.pending.eraseIdx page } with
                memory := update run.memory addr (chunk key) }
  | .fail task =>
      match run.putIn task .transferring with
      | none => run
      | some put => run.setPut task { put with phase := .failed }
  | .finish task =>
      match run.putIn task .transferring with
      | none => run
      | some put =>
          if put.pending = [] then run.setPut task { put with phase := .finished } else run
  | .retrieve key => run.retrieveKey key

end PDRun

end LMCache
