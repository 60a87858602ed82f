import LMCache.StorageBackend.ActiveBackends
import Mathlib.Algebra.BigOperators.Group.List.Basic
import Mathlib.Algebra.GroupWithZero.Nat
import Mathlib.Algebra.Order.Group.Int

namespace LMCache

inductive PinMode where
  | ignored
  | clamped
  | unclamped
deriving DecidableEq

structure LookupConfig (K : Type) where
  useLayerwise : Bool
  numLayers : ℕ
  splitLayer : K → ℕ → K

structure PinState (K : Type) where
  table : BackendTable PinMode
  present : String → K → Bool
  pinCount : String → K → ℤ
  lookupPins : Dict String (Dict String (List K))

variable {K : Type} [DecidableEq K]

namespace PinState

variable (st : PinState K)

def keepsPins (location : String) : Bool :=
  location != "PDBackend" &&
    ((st.table.storageBackends.get? location).map fun mode => mode != PinMode.ignored).getD false

def pinAll (location : String) (keys : List K) : PinState K :=
  if st.keepsPins location then
    { st with pinCount := fun l k =>
        if l = location then st.pinCount l k + keys.count k else st.pinCount l k }
  else st

def mapKeys (st : PinState K) (totalKeys : ℕ) : List (String × PinMode) → List K → ℕ →
    List (String × List K)
  | [], _, _ => []
  | (backendName, _) :: rest, keys, totalHitChunks =>
      let hitChunks := (keys.takeWhile (st.present backendName)).length
      if hitChunks = 0 then mapKeys st totalKeys rest keys totalHitChunks
      else
        (backendName, keys.take hitChunks) ::
          if totalHitChunks + hitChunks = totalKeys then []
          else mapKeys st totalKeys rest (keys.drop hitChunks) (totalHitChunks + hitChunks)

def blockMapping (keys : List K) (searchRange : Option (List String)) : List (String × List K) :=
  st.mapKeys keys.length (st.table.getActiveStorageBackends none searchRange) keys 0

omit [DecidableEq K] in
theorem mapKeys_sublist (totalKeys : ℕ) (backends : List (String × PinMode)) (keys : List K)
    (hits : ℕ) :
    ((st.mapKeys totalKeys backends keys hits).map Prod.fst).Sublist (backends.map Prod.fst) := by
  induction backends generalizing keys hits with
  | nil => exact .refl _
  | cons p backends ih =>
    obtain ⟨backendName, mode⟩ := p
    simp only [mapKeys]
    split_ifs
    · exact (ih keys hits).cons _
    · exact (List.nil_sublist _).cons_cons _
    · exact (ih _ _).cons_cons _

omit [DecidableEq K] in
theorem blockMapping_nodup (keys : List K) (searchRange : Option (List String)) :
    ((st.blockMapping keys searchRange).map Prod.fst).Nodup :=
  (st.table.active_nodup none searchRange).sublist (st.mapKeys_sublist _ _ _ _)

def hitChunks (blockMapping : List (String × List K)) : ℕ :=
  (blockMapping.map fun block => block.2.length).sum

def pinBlocks (blockMapping : List (String × List K)) : PinState K :=
  blockMapping.foldl (fun st block => st.pinAll block.1 block.2) st

def batchedContains (keys : List K) (searchRange : Option (List String)) (pin : Bool) :
    PinState K :=
  if pin then st.pinBlocks (st.blockMapping keys searchRange) else st

def assignPins (lookupId : String) (pins : Dict String (List K)) : PinState K :=
  { st with lookupPins := st.lookupPins.set lookupId pins }

def extendPins (lookupId location : String) (keys : List K) : PinState K :=
  let pins := (st.lookupPins.get? lookupId).getD Dict.empty
  st.assignPins lookupId (pins.set location ((pins.get? location).getD [] ++ keys))

end PinState

namespace LookupConfig

variable (cfg : LookupConfig K)

def splitLayers (key : K) : List K :=
  (List.range cfg.numLayers).map (cfg.splitLayer key)

def completeAt (blockMapping : List (String × List K)) : Option String :=
  match blockMapping with
  | [(location, _)] =>
      if PinState.hitChunks blockMapping = cfg.numLayers then some location else none
  | _ => none

def lookupLayers (cfg : LookupConfig K) (lookupId : String) (searchRange : Option (List String))
    (pin : Bool) : List (ℕ × ℕ × K) → ℕ → PinState K → ℕ × PinState K
  | [], res, st => (res, st)
  | (_, stop, key) :: rest, res, st =>
      let keyAllLayers := cfg.splitLayers key
      let st' := st.batchedContains keyAllLayers searchRange pin
      match cfg.completeAt (st.blockMapping keyAllLayers searchRange) with
      | none => (res, st')
      | some location =>
          lookupLayers cfg lookupId searchRange pin rest stop
            (if pin then st'.extendPins lookupId location keyAllLayers else st')

def lookupChunks (lookupId : String) (searchRange : Option (List String)) (pin : Bool)
    (segments : List (ℕ × ℕ × K)) (st : PinState K) : ℕ × PinState K :=
  let keys := segments.map fun segment => segment.2.2
  let blockMapping := st.blockMapping keys searchRange
  let st' := st.batchedContains keys searchRange pin
  let res := ((segments.take (PinState.hitChunks blockMapping)).getLast?.map fun segment =>
    segment.2.1).getD 0
  (res, if pin && !blockMapping.isEmpty
    then st'.assignPins lookupId ⟨blockMapping, st.blockMapping_nodup keys searchRange⟩ else st')

def lookup (lookupId : String) (segments : List (ℕ × ℕ × K)) (searchRange : Option (List String))
    (pin : Bool) (st : PinState K) : ℕ × PinState K :=
  if cfg.useLayerwise then cfg.lookupLayers lookupId searchRange pin segments 0 st
  else lookupChunks lookupId searchRange pin segments st

end LookupConfig

namespace PinState

def unpinned : PinMode → ℤ → ℤ
  | .ignored, count => count
  | .clamped, count => max (count - 1) 0
  | .unclamped, count => count - 1

def unpin (st : PinState K) (location : String) (key : K) : PinState K :=
  match st.table.storageBackends.get? location with
  | none => st
  | some mode =>
      if st.present location key then
        { st with pinCount := fun l k => if l = location ∧ k = key
            then unpinned mode (st.pinCount l k) else st.pinCount l k }
      else st

def batchedUnpin (st : PinState K) (location : String) (keys : List K) : PinState K :=
  keys.foldl (fun st key => st.unpin location key) st

def lookupUnpin (st : PinState K) (lookupId : String) : PinState K :=
  match st.lookupPins.get? lookupId with
  | none => st
  | some pins =>
      pins.items.foldl (fun st p => st.batchedUnpin p.1 p.2)
        { st with lookupPins := st.lookupPins.erase lookupId }

end PinState

inductive PinEvent (K : Type) where
  | lookup (lookupId : String) (segments : List (ℕ × ℕ × K)) (searchRange : Option (List String))
      (pin : Bool)
  | lookupUnpin (lookupId : String)
  | put (location : String) (key : K)
  | remove (location : String) (key : K)
  | setFreeze (freeze : Bool)
  | setBypass (bypassedBackends : List String)

namespace LookupConfig

def exec (cfg : LookupConfig K) (st : PinState K) : PinEvent K → PinState K
  | .lookup lookupId segments searchRange pin => (cfg.lookup lookupId segments searchRange pin st).2
  | .lookupUnpin lookupId => st.lookupUnpin lookupId
  | .put location key =>
      if st.present location key then st
      else
        { st with
          present := fun l k => if l = location ∧ k = key then true else st.present l k
          pinCount := fun l k => if l = location ∧ k = key then 0 else st.pinCount l k }
  | .remove location key =>
      { st with present := fun l k => if l = location ∧ k = key then false else st.present l k }
  | .setFreeze freeze => { st with table := { st.table with freeze := freeze } }
  | .setBypass bypassedBackends =>
      { st with table := { st.table with bypassedBackends := bypassedBackends } }

end LookupConfig

end LMCache
