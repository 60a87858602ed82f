import LMCache.Foundations.Recency
import LMCache.StorageBackend.ControllerView
import LMCache.StorageBackend.PolicyCalls

namespace LMCache

open List

theorem keys_moveToEnd {K V : Type} [DecidableEq K] {d : Dict K V} {k : K}
    (h : d.contains k = true) : (d.moveToEnd k).keys = Recency.touch d.keys k := by
  obtain ⟨v, hget⟩ := Option.isSome_iff_exists.mp h
  have herase : (d.erase k).keys = d.keys.erase k := by
    rw [Dict.keys, Dict.keys, List.Nodup.erase_eq_filter d.nodup, filter_map]
    refine congrArg _ (filter_congr fun p _ => ?_)
    simp [bne, Bool.beq_eq_decide_eq]
  have habsent : k ∉ (d.erase k).items.map Prod.fst := by
    rw [← Dict.keys, herase]
    exact List.Nodup.not_mem_erase d.nodup
  rw [Dict.moveToEnd, hget, Recency.touch, ← herase]
  change (Dict.assign k v (d.erase k).items).map Prod.fst = _
  rw [Dict.assign_of_notMem habsent, map_append]
  rfl

namespace CPUState

open Execution CachePolicy

variable {st st' : CPUState}

def touchRaises : List HotKey → CPUState → Bool
  | [], _ => false
  | key :: keys, st =>
      match st.policy.updateOnHit key st.hotCache with
      | none => true
      | some (policy, hotCache) => touchRaises keys { st with policy := policy, hotCache := hotCache }

def batchedAsyncContains (pin : Bool) : List HotKey → CPUState → ℕ × CPUState
  | [], st => (0, st)
  | key :: keys, st =>
      if st.hotCache.contains key then
        let rest := batchedAsyncContains pin keys (st.contains key pin)
        (rest.1 + 1, rest.2)
      else (0, st)

def RequestNewest (request : List HotKey) (st' : CPUState) : Prop :=
  ∃ older recent, st'.hotCache.keys = older ++ recent ∧
    (∀ key, key ∈ recent ↔ key ∈ request ∧ st'.Cached key) ∧
      recent.Pairwise fun a b => request.idxOf b < request.idxOf a

structure Touched (st st' : CPUState) : Prop where
  keysInRequest : st'.keysInRequest = []
  newest : st.policy.kind = .lru → RequestNewest st.keysInRequest st'

def TouchSucceeds (st : CPUState) : CPUEvent → Prop
  | .touchCache => touchRaises st.keysInRequest.reverse st = false ∧ Touched st st.touchCache
  | _ => True

def RequestKnown (st : CPUState) : CPUEvent → Prop
  | .touchCache => ∀ key ∈ st.keysInRequest, st.policy.Knows st.hotCache key
  | _ => True

theorem touchRaises_eq_false_iff (keys : List HotKey) (h : st.policy.Consistent) :
    touchRaises keys st = false ↔ ∀ key ∈ keys, st.policy.Knows st.hotCache key := by
  induction keys generalizing st with
  | nil => simp [touchRaises]
  | cons key keys ih =>
    have hknows : (st.policy.updateOnHit key st.hotCache).isSome = true ↔
        st.policy.Knows st.hotCache key := isSome_updateOnHit_iff fun _ => h
    rw [touchRaises, forall_mem_cons, ← hknows]
    cases hhit : st.policy.updateOnHit key st.hotCache with
    | none => simp
    | some hit =>
      obtain ⟨policy, hotCache⟩ := hit
      rw [Option.isSome_some, and_iff_right rfl]
      refine (ih (h.updateOnHit hhit)).trans ?_
      exact forall₂_congr fun key' _ => knows_updateOnHit_iff hhit

variable {keys : List HotKey}

theorem keysInRequest_touchKeys (h : touchRaises keys st = false) :
    (touchKeys keys st).keysInRequest = [] := by
  induction keys generalizing st with
  | nil => rfl
  | cons key keys ih =>
    rw [touchRaises] at h
    rw [touchKeys]
    cases hhit : st.policy.updateOnHit key st.hotCache with
    | none =>
      rw [hhit] at h
      cases h
    | some hit =>
      rw [hhit] at h
      exact ih h

theorem cached_touchKeys (keys : List HotKey) (st : CPUState) (key : HotKey) :
    (touchKeys keys st).Cached key ↔ st.Cached key :=
  (silent_touchKeys keys st).cached key

theorem keys_touchKeys (hlru : st.policy.kind = .lru) (h : touchRaises keys st = false) :
    (touchKeys keys st).hotCache.keys = keys.foldl Recency.touch st.hotCache.keys := by
  induction keys generalizing st with
  | nil => rfl
  | cons key keys ih =>
    rw [touchRaises] at h
    rw [touchKeys]
    cases hhit : st.policy.updateOnHit key st.hotCache with
    | none =>
      rw [hhit] at h
      cases h
    | some hit =>
      obtain ⟨policy, hotCache⟩ := hit
      rw [hhit] at h
      dsimp only
      rw [ih ((hit_of_updateOnHit hhit).kind.trans hlru) h, foldl_cons]
      rw [updateOnHit, hlru] at hhit
      dsimp only at hhit
      split_ifs at hhit with hstored
      obtain ⟨_, rfl⟩ := Prod.mk.inj (Option.some.inj hhit)
      rw [keys_moveToEnd hstored]

theorem requestNewest_touchCache (hlru : st.policy.kind = .lru)
    (hraises : touchRaises st.keysInRequest.reverse st = false)
    (hstored : ∀ key ∈ st.keysInRequest, st.Cached key) :
    RequestNewest st.keysInRequest st.touchCache := by
  refine ⟨st.hotCache.keys.filter fun key => key ∉ st.keysInRequest.reverse,
    st.keysInRequest.reverse.dedup, ?_, fun key => ?_, ?_⟩
  · rw [touchCache, keys_touchKeys hlru hraises]
    exact Recency.foldl_touch st.hotCache.nodup _
  · rw [mem_dedup, mem_reverse, touchCache, cached_touchKeys]
    exact (and_iff_left_of_imp (hstored key)).symm
  · have hpairwise := Recency.pairwise_dedup st.keysInRequest.reverse
    rw [reverse_reverse] at hpairwise
    exact hpairwise

theorem touchSucceeds_iff (h : st.policy.Consistent) (event : CPUEvent) :
    TouchSucceeds st event ↔ RequestKnown st event := by
  cases event with
  | touchCache =>
    have hknown := touchRaises_eq_false_iff st.keysInRequest.reverse h
    simp only [mem_reverse] at hknown
    refine ⟨fun hsucceeds => hknown.mp hsucceeds.1, fun hall => ?_⟩
    have hraises := hknown.mpr hall
    refine ⟨hraises, keysInRequest_touchKeys hraises, fun hlru => ?_⟩
    refine requestNewest_touchCache hlru hraises fun key hkey => ?_
    have hstored := hall key hkey
    rw [Knows, hlru] at hstored
    exact hstored
  | _ => exact Iff.rfl

theorem touches_succeed_iff (kind : PolicyKind) (events : List CPUEvent) :
    Along exec TouchSucceeds (start kind) events ↔ Along exec RequestKnown (start kind) events :=
  along_iff_along (Q := fun _ _ => True) (I := fun st => st.policy.Consistent)
    (fun _ event h _ _ => consistent_step h event) (fun _ event h _ => touchSucceeds_iff h event)
    (consistent_init kind) (along_of_forall (fun _ _ => trivial) _ _)

def removedBeforeTouch : List CPUEvent :=
  storeLayer 0 ++ [.contains (layerKey 0) true, .remove (layerKey 0), .queueEvict (layerKey 0),
    .touchCache]

theorem not_touches_succeed_removed :
    ¬ Along exec TouchSucceeds (start .lru) removedBeforeTouch := by
  intro h
  obtain ⟨hraises, _⟩ := ((along_append _ _ _).mp h).2.2.2.2.1
  exact absurd hraises (by decide)

end CPUState

end LMCache
