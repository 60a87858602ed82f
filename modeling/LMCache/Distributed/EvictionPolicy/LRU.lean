import Mathlib.Data.Rat.Floor
import LMCache.Foundations.Recency
import LMCache.Distributed.L1Manager
import LMCache.Foundations.Execution

namespace LMCache

open List Recency

structure LRUEvictionPolicy (K : Type) where
  order : List K
  nodup : order.Nodup

inductive EvictionDestination
  | discard
  | l2Cache
  deriving DecidableEq, Repr

structure EvictionAction (K : Type) where
  destination : EvictionDestination
  keys : List K

structure EvictionTargets where
  destinations : List EvictionDestination
  defaultDestination : EvictionDestination

namespace EvictionTargets

def destination (targets : EvictionTargets) : EvictionDestination :=
  targets.destinations.headD targets.defaultDestination

end EvictionTargets

namespace LRUEvictionPolicy

variable {K : Type}

def create : LRUEvictionPolicy K := ⟨[], nodup_nil⟩

variable {key : K}

theorem nodup_concat {keys : List K} (h : keys.Nodup) (hkey : key ∉ keys) : (keys ++ [key]).Nodup :=
  h.append (nodup_singleton key) (disjoint_singleton.mpr hkey)

variable [DecidableEq K] (policy : LRUEvictionPolicy K)

def moveToEnd (key : K) : LRUEvictionPolicy K where
  order := policy.order.erase key ++ [key]
  nodup := nodup_concat (policy.nodup.erase key) policy.nodup.not_mem_erase

def createKey (key : K) : LRUEvictionPolicy K :=
  if h : key ∈ policy.order then policy.moveToEnd key
  else ⟨policy.order ++ [key], nodup_concat policy.nodup h⟩

def touchKey (key : K) : LRUEvictionPolicy K :=
  if key ∈ policy.order then policy.moveToEnd key else policy

def removeKey (key : K) : LRUEvictionPolicy K :=
  ⟨policy.order.erase key, policy.nodup.erase key⟩

def onKeysCreated (keys : List K) : LRUEvictionPolicy K :=
  keys.reverse.foldl createKey policy

def onKeysTouched (keys : List K) : LRUEvictionPolicy K :=
  keys.reverse.foldl touchKey policy

def onKeysRemoved (keys : List K) : LRUEvictionPolicy K :=
  keys.foldl removeKey policy

def onNotification : L1Notification K → LRUEvictionPolicy K
  | .keysReservedRead _ => policy
  | .keysReadFinished keys => policy.onKeysTouched keys
  | .keysReservedWrite _ => policy
  | .keysWriteFinished keys => policy.onKeysCreated keys
  | .keysFinishWriteAndReserveRead keys => policy.onKeysCreated keys
  | .keysDeletedByManager keys => policy.onKeysRemoved keys

def expectedTarget (floatMul : ℕ → ℚ → ℚ) (tracked : ℕ) (expectedRatio : ℚ) : ℕ :=
  let ratio := max 0 (min 1 expectedRatio)
  let targetCount := ⌊floatMul tracked ratio⌋₊
  if 0 < ratio ∧ targetCount = 0 ∧ 0 < tracked then 1 else targetCount

def getEvictionActions (targets : EvictionTargets) (floatMul : ℕ → ℚ → ℚ) (expectedRatio : ℚ) :
    List (EvictionAction K) :=
  let targetCount := expectedTarget floatMul policy.order.length expectedRatio
  if policy.order.isEmpty || targetCount = 0 then []
  else [⟨targets.destination, policy.order.take targetCount⟩]

theorem order_createKey (key : K) :
    (policy.createKey key).order = touch policy.order key := by
  rw [createKey]
  split_ifs with h
  · rfl
  · rw [touch, erase_of_not_mem h]

theorem order_foldl_createKey (keys : List K) :
    (keys.foldl createKey policy).order = keys.foldl touch policy.order := by
  induction keys generalizing policy with
  | nil => rfl
  | cons key keys ih => rw [foldl_cons, ih, order_createKey, foldl_cons]

theorem order_onKeysCreated {keys : List K} (hkeys : keys.Nodup) :
    (policy.onKeysCreated keys).order = policy.order.filter (fun k => k ∉ keys) ++ keys.reverse := by
  rw [onKeysCreated, order_foldl_createKey, foldl_touch policy.nodup,
    (nodup_reverse.mpr hkeys).dedup]
  simp only [mem_reverse]

theorem order_removeKeys (keys : List K) :
    (policy.onKeysRemoved keys).order.Sublist policy.order := by
  rw [onKeysRemoved]
  induction keys generalizing policy with
  | nil => exact List.Sublist.refl _
  | cons key keys ih => exact (ih (policy.removeKey key)).trans erase_sublist

variable {policy : LRUEvictionPolicy K} {k : K}

theorem mem_moveToEnd : k ∈ (policy.moveToEnd key).order ↔ k = key ∨ k ∈ policy.order := by
  simp only [moveToEnd, mem_append, mem_singleton, policy.nodup.mem_erase_iff]
  tauto

theorem mem_createKey : k ∈ (policy.createKey key).order ↔ k = key ∨ k ∈ policy.order := by
  rw [createKey]
  split_ifs
  · exact mem_moveToEnd
  · rw [mem_append, mem_singleton, or_comm]

theorem mem_touchKey : k ∈ (policy.touchKey key).order ↔ k ∈ policy.order := by
  rw [touchKey]
  split_ifs with h
  · rw [mem_moveToEnd]
    constructor
    · rintro (rfl | hk)
      · exact h
      · exact hk
    · exact .inr
  · exact Iff.rfl

variable {keys : List K}

theorem mem_foldl_createKey :
    k ∈ (keys.foldl createKey policy).order ↔ k ∈ keys ∨ k ∈ policy.order := by
  induction keys generalizing policy with
  | nil => simp
  | cons key keys ih =>
    rw [foldl_cons, ih, mem_createKey, mem_cons]
    tauto

theorem mem_onKeysCreated :
    k ∈ (policy.onKeysCreated keys).order ↔ k ∈ keys ∨ k ∈ policy.order := by
  rw [onKeysCreated, mem_foldl_createKey, mem_reverse]

theorem mem_foldl_touchKey : k ∈ (keys.foldl touchKey policy).order ↔ k ∈ policy.order := by
  induction keys generalizing policy with
  | nil => exact Iff.rfl
  | cons key keys ih => rw [foldl_cons, ih, mem_touchKey]

theorem order_foldl_touchKey (keys : List K) :
    (keys.foldl touchKey policy).order =
      (keys.filter (fun k => k ∈ policy.order)).foldl touch policy.order := by
  induction keys generalizing policy with
  | nil => rfl
  | cons key keys ih =>
    rw [foldl_cons, ih]
    have hsame : keys.filter (fun k => k ∈ (policy.touchKey key).order) =
        keys.filter (fun k => k ∈ policy.order) := by
      simp only [mem_touchKey]
    rw [hsame]
    by_cases h : key ∈ policy.order
    · rw [filter_cons_of_pos (by simpa using h), foldl_cons, touchKey, if_pos h]
      rfl
    · rw [filter_cons_of_neg (by simpa using h), touchKey, if_neg h]

theorem order_onKeysTouched (hkeys : keys.Nodup) :
    (policy.onKeysTouched keys).order = policy.order.filter (fun k => k ∉ keys) ++
      (keys.filter (fun k => k ∈ policy.order)).reverse := by
  rw [onKeysTouched, order_foldl_touchKey, filter_reverse, foldl_touch policy.nodup,
    (nodup_reverse.mpr (hkeys.filter _)).dedup]
  congr 1
  refine filter_congr fun k hk => ?_
  simp [hk]

theorem mem_onKeysTouched :
    k ∈ (policy.onKeysTouched keys).order ↔ k ∈ policy.order := mem_foldl_touchKey

theorem mem_onKeysRemoved :
    k ∈ (policy.onKeysRemoved keys).order ↔ k ∉ keys ∧ k ∈ policy.order := by
  rw [onKeysRemoved]
  induction keys generalizing policy with
  | nil => simp
  | cons key keys ih =>
    rw [foldl_cons, ih, removeKey, policy.nodup.mem_erase_iff, mem_cons]
    tauto

end LRUEvictionPolicy

structure PrefixTree (K : Type) where
  parent : K → Option K
  wellFounded : WellFounded fun a b => parent b = some a

namespace PrefixTree

variable {K : Type} {tree : PrefixTree K} {keys : List K} {a b : K}

def Ancestor (tree : PrefixTree K) : K → K → Prop :=
  Relation.TransGen fun a b => tree.parent b = some a

theorem Ancestor.asymm (h : tree.Ancestor a b) : ¬ tree.Ancestor b a :=
  tree.wellFounded.transGen.asymmetric _ _ h

theorem Ancestor.ne (h : tree.Ancestor a b) : a ≠ b := by
  rintro rfl
  exact h.asymm h

def Segment (tree : PrefixTree K) (keys : List K) : Prop :=
  keys.IsChain fun a b => tree.parent b = some a

theorem Segment.pairwise (h : tree.Segment keys) : keys.Pairwise tree.Ancestor := by
  have : IsTrans K tree.Ancestor := ⟨fun _ _ _ => Relation.TransGen.trans⟩
  exact isChain_iff_pairwise.mp (h.imp fun _ _ => Relation.TransGen.single)

theorem Segment.nodup (h : tree.Segment keys) : keys.Nodup := h.pairwise.imp Ancestor.ne

theorem Segment.respects_reverse (h : tree.Segment keys) :
    Recency.Respects tree.Ancestor keys.reverse :=
  pairwise_reverse.mpr (h.pairwise.imp Ancestor.asymm)

end PrefixTree

inductive OrderCall (K : Type) where
  | created (keys : List K)
  | touched (keys : List K)
  | removed (keys : List K)

namespace LRUEvictionPolicy

variable {K : Type} [DecidableEq K]

def exec (policy : LRUEvictionPolicy K) : OrderCall K → LRUEvictionPolicy K
  | .created keys => policy.onKeysCreated keys
  | .touched keys => policy.onKeysTouched keys
  | .removed keys => policy.onKeysRemoved keys

variable (tree : PrefixTree K)

def Admissible (policy : LRUEvictionPolicy K) : OrderCall K → Prop
  | .created keys => tree.Segment keys ∧
      ∀ k ∈ keys, ∀ p ∈ tree.parent k, p ∈ policy.order ∨ p ∈ keys
  | .touched keys => tree.Segment keys
  | .removed keys => tree.Segment keys

def NeverStrands (targets : EvictionTargets) (floatMul : ℕ → ℚ → ℚ) (policy : LRUEvictionPolicy K) :
    Prop :=
  ∀ expectedRatio, ∀ action ∈ policy.getEvictionActions targets floatMul expectedRatio,
    ∀ a ∈ action.keys, ∀ b ∈ policy.order, tree.Ancestor a b → b ∈ action.keys

def KeepsAncestors (policy : LRUEvictionPolicy K) : OrderCall K → Prop
  | .created keys => ∀ k ∈ keys, ∀ a ∈ policy.order, tree.Ancestor a k → a ∈ keys
  | .touched keys => ∀ k ∈ keys, k ∈ policy.order → ∀ a ∈ policy.order, tree.Ancestor a k → a ∈ keys
  | .removed _ => True

def Reaches (floatMul : ℕ → ℚ → ℚ) (tracked : ℕ) : Prop :=
  ∀ n < tracked, ∃ ratio : ℚ, 0 ≤ ratio ∧ ratio ≤ 1 ∧ ⌊floatMul tracked ratio⌋₊ = n

variable {tree : PrefixTree K} {targets : EvictionTargets} {floatMul : ℕ → ℚ → ℚ}
  {policy : LRUEvictionPolicy K} {keys : List K}

omit [DecidableEq K] in
theorem keys_of_mem_actions {expectedRatio : ℚ} {action : EvictionAction K}
    (h : action ∈ policy.getEvictionActions targets floatMul expectedRatio) :
    action.keys = policy.order.take (expectedTarget floatMul policy.order.length expectedRatio) := by
  rw [getEvictionActions] at h
  split_ifs at h
  · exact absurd h not_mem_nil
  · rw [mem_singleton.mp h]

omit [DecidableEq K] in
theorem exists_action (hreaches : Reaches floatMul policy.order.length)
    (targets : EvictionTargets) {n : ℕ} (hn : n < policy.order.length) (hpos : 0 < n) : ∃ expectedRatio, ∃ action ∈
      policy.getEvictionActions targets floatMul expectedRatio, action.keys = policy.order.take n := by
  obtain ⟨ratio, h0, h1, hfloor⟩ := hreaches n hn
  have htarget : expectedTarget floatMul policy.order.length ratio = n := by
    rw [expectedTarget, min_eq_right h1, max_eq_right h0, hfloor]
    exact if_neg fun h => hpos.ne' h.2.1
  have hsome : policy.order.isEmpty = false := by
    rw [isEmpty_eq_false_iff]
    exact ne_nil_of_length_pos (Nat.zero_lt_of_lt hn)
  refine ⟨ratio, ⟨targets.destination, policy.order.take n⟩, ?_, rfl⟩
  rw [getEvictionActions, htarget, hsome, Bool.false_or, if_neg (by simpa using hpos.ne')]
  exact mem_singleton_self _

omit [DecidableEq K] in
theorem neverStrands_iff (hreaches : Reaches floatMul policy.order.length)
    (targets : EvictionTargets) :
    NeverStrands tree targets floatMul policy ↔ Recency.Respects tree.Ancestor policy.order := by
  constructor
  · intro h
    refine respects_of_take policy.nodup fun n hn hpos a ha b hb hab => ?_
    obtain ⟨ratio, action, haction, hkeys⟩ := exists_action hreaches targets hn hpos
    exact hkeys ▸ h ratio action haction a (hkeys ▸ ha) b hb hab
  · intro h ratio action haction a ha b hb hab
    rw [keys_of_mem_actions haction] at ha ⊢
    exact h.take _ ha hb hab

theorem respects_created_iff (h : Recency.Respects tree.Ancestor policy.order)
    (hkeys : tree.Segment keys) :
    Recency.Respects tree.Ancestor (policy.onKeysCreated keys).order ↔
      KeepsAncestors tree policy (.created keys) := by
  rw [order_onKeysCreated policy hkeys.nodup, Recency.Respects, pairwise_append]
  constructor
  · rintro ⟨_, _, hcross⟩ k hk a ha hak
    by_contra hnot
    exact hcross a (mem_filter.mpr ⟨ha, by simpa using hnot⟩) k (mem_reverse.mpr hk) hak
  · intro hkeeps
    refine ⟨h.filter _, hkeys.respects_reverse, fun a ha k hk hak => ?_⟩
    obtain ⟨ha, hnot⟩ := mem_filter.mp ha
    exact of_decide_eq_true hnot (hkeeps k (mem_reverse.mp hk) a ha hak)

theorem respects_touched_iff (h : Recency.Respects tree.Ancestor policy.order)
    (hkeys : tree.Segment keys) :
    Recency.Respects tree.Ancestor (policy.onKeysTouched keys).order ↔
      KeepsAncestors tree policy (.touched keys) := by
  rw [order_onKeysTouched hkeys.nodup, Recency.Respects, pairwise_append]
  constructor
  · rintro ⟨_, _, hcross⟩ k hk htracked a ha hak
    by_contra hnot
    refine hcross a (mem_filter.mpr ⟨ha, by simpa using hnot⟩) k ?_ hak
    exact mem_reverse.mpr (mem_filter.mpr ⟨hk, by simpa using htracked⟩)
  · intro hkeeps
    refine ⟨h.filter _, ?_, fun a ha k hk hak => ?_⟩
    · exact hkeys.respects_reverse.sublist (filter_sublist.reverse)
    · obtain ⟨ha, hnot⟩ := mem_filter.mp ha
      obtain ⟨hk, htracked⟩ := mem_filter.mp (mem_reverse.mp hk)
      exact of_decide_eq_true hnot (hkeeps k hk (of_decide_eq_true htracked) a ha hak)

theorem respects_exec_iff (h : Recency.Respects tree.Ancestor policy.order) (call : OrderCall K)
    (hcall : Admissible tree policy call) :
    Recency.Respects tree.Ancestor (policy.exec call).order ↔ KeepsAncestors tree policy call := by
  cases call with
  | created keys => exact respects_created_iff h hcall.1
  | touched keys => exact respects_touched_iff h hcall
  | removed keys =>
    exact iff_of_true (List.Pairwise.sublist (policy.order_removeKeys keys) h) trivial

theorem neverStrands_iff_keepsAncestors (tree : PrefixTree K) (targets : EvictionTargets)
    {calls : List (OrderCall K)} (hreaches : ∀ pre rest, calls = pre ++ rest →
      Reaches floatMul (Execution.final exec create pre).order.length)
    (hcalls : Execution.Along exec (Admissible tree) create calls) :
    (∀ pre rest, calls = pre ++ rest →
        NeverStrands tree targets floatMul (Execution.final exec create pre)) ↔
      Execution.Along exec (KeepsAncestors tree) create calls := by
  have hstart : Recency.Respects tree.Ancestor (create : LRUEvictionPolicy K).order :=
    List.Pairwise.nil
  rw [forall₃_congr fun pre rest hcut => neverStrands_iff (hreaches pre rest hcut) targets,
    Execution.forall_prefix_iff (I := fun policy : LRUEvictionPolicy K =>
    Recency.Respects tree.Ancestor policy.order), and_iff_right hstart]
  exact Execution.along_iff_along (I := fun policy : LRUEvictionPolicy K =>
      Recency.Respects tree.Ancestor policy.order)
    (fun policy call h hcall hkeeps => (respects_exec_iff h call hcall).mpr hkeeps)
    (fun policy call h hcall => respects_exec_iff h call hcall) hstart hcalls

def chainTree : PrefixTree ℕ where
  parent
    | 0 => none
    | n + 1 => some n
  wellFounded := by
    refine Subrelation.wf (r := fun a b => a < b) (fun {a b} h => ?_) Nat.lt_wfRel.wf
    cases b with
    | zero => cases h
    | succ n => exact Option.some.inj h ▸ Nat.lt_succ_self n

def discarding : EvictionTargets := ⟨[], .discard⟩

def exactMul (tracked : ℕ) (ratio : ℚ) : ℚ := tracked * ratio

theorem reaches_exactMul (tracked : ℕ) : Reaches exactMul tracked := by
  intro n hn
  have hpos : (0 : ℚ) < tracked := Nat.cast_pos.mpr (Nat.zero_lt_of_lt hn)
  refine ⟨n / tracked, div_nonneg n.cast_nonneg hpos.le, ?_, ?_⟩
  · exact (div_le_one hpos).mpr (Nat.cast_le.mpr hn.le)
  · rw [exactMul, mul_div_cancel₀ _ hpos.ne', Nat.floor_natCast]

theorem neverStrands_iff_wholeRequest :
    (∀ pre rest, [OrderCall.created [0, 1], .touched [0, 1], .removed [1]] = pre ++ rest →
        NeverStrands chainTree discarding exactMul (Execution.final exec create pre)) ↔
      Execution.Along exec (KeepsAncestors chainTree) create
        [.created [0, 1], .touched [0, 1], .removed [1]] := by
  refine neverStrands_iff_keepsAncestors chainTree discarding (fun _ _ _ => reaches_exactMul _)
    ⟨⟨?_, ?_⟩, ?_, ?_, trivial⟩
  · exact .cons_cons rfl (.singleton _)
  · intro k hk p hp
    rcases mem_pair.mp hk with rfl | rfl
    · cases hp
    · exact .inr (Option.mem_some_iff.mp hp ▸ mem_cons_self)
  · exact .cons_cons rfl (.singleton _)
  · exact .singleton _

theorem not_neverStrands_extendedPrefix :
    ¬ ∀ (tree : PrefixTree ℕ) (targets : EvictionTargets) (floatMul : ℕ → ℚ → ℚ)
      (calls : List (OrderCall ℕ)), (∀ tracked, Reaches floatMul tracked) →
        Execution.Along exec (Admissible tree) create calls → ∀ pre rest, calls = pre ++ rest →
          NeverStrands tree targets floatMul (Execution.final exec create pre) := by
  intro h
  have hcalls : Execution.Along exec (Admissible chainTree) create [.created [0], .created [1]] := by
    refine ⟨⟨.singleton _, ?_⟩, ⟨.singleton _, ?_⟩, trivial⟩
    · intro k hk p hp
      rw [mem_singleton.mp hk] at hp
      cases hp
    · intro k hk p hp
      rw [mem_singleton.mp hk] at hp
      exact .inl (Option.mem_some_iff.mp hp ▸ mem_singleton_self _)
  have hstrands := h chainTree discarding exactMul _ reaches_exactMul hcalls _ []
    (append_nil _).symm
  have hrespects := (neverStrands_iff (reaches_exactMul _) discarding).mp hstrands
  exact (pairwise_pair.mp hrespects) (Relation.TransGen.single rfl)

end LRUEvictionPolicy

end LMCache
