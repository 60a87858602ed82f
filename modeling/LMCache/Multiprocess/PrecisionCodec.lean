import Mathlib.Algebra.Order.Field.Rat
import LMCache.Foundations.Lists

namespace LMCache

open List

inductive Tier where
  | full
  | base
deriving DecidableEq, Repr

inductive PrecisionPolicy where
  | allFull
  | allBase
  | mixed3Span
  | thresholdMixed
deriving DecidableEq, Repr

structure PrecisionEnv where
  policy : PrecisionPolicy
  baseCodec : String
  sinkChunks : ℕ
  recentChunks : ℕ
  precisionThreshold : ℚ
  floatDiv : ℕ → ℕ → ℚ

structure TierSpan where
  start : ℕ
  stop : ℕ
  tier : Tier
deriving DecidableEq, Repr

def groupFrom (start : ℕ) (current : Tier) : ℕ → List Tier → List TierSpan
  | idx, [] => [⟨start, idx, current⟩]
  | idx, tier :: tiers =>
      if tier = current then groupFrom start current (idx + 1) tiers
      else ⟨start, idx, current⟩ :: groupFrom idx tier (idx + 1) tiers

def groupPrecisionTierSpans : List Tier → List TierSpan
  | [] => []
  | tier :: tiers => groupFrom 0 tier 1 tiers

variable (tiers : List Tier)

def isStandardThresholdSpanShape : Bool :=
  match groupPrecisionTierSpans tiers with
  | [] => true
  | [span] => span.tier == .full
  | [sink, middle, recent] =>
      sink.start == 0 && sink.tier == .full && middle.tier == .base && recent.tier == .full &&
        recent.stop == tiers.length
  | _ => false

def normalizeThresholdMixedTiers : List Tier :=
  if isStandardThresholdSpanShape tiers then tiers else replicate tiers.length .full

namespace PrecisionEnv

variable (env : PrecisionEnv)

def namespaceModelNameForPrecision (modelName : String) : Tier → String
  | .full => modelName
  | .base => modelName ++ "#precision=base#codec=" ++ env.baseCodec

variable (totalChunks : ℕ)

def buildMixed3SpanTiers : List Tier :=
  let sinkEnd := min env.sinkChunks totalChunks
  let recentStart := max sinkEnd (totalChunks - env.recentChunks)
  (range totalChunks).map (fun idx =>
    if idx < sinkEnd then .full else if recentStart ≤ idx then .full else .base)

def buildThresholdMixedTiers : List Tier :=
  normalizeThresholdMixedTiers ((range totalChunks).map (fun chunkIdx =>
    let recentScore := env.floatDiv (chunkIdx + 1) totalChunks
    let sinkScore : ℚ := if chunkIdx < env.sinkChunks then 1 else 0
    if env.precisionThreshold ≤ max recentScore sinkScore then .full else .base))

def tiersFor : List Tier :=
  match env.policy with
  | .allFull => replicate totalChunks .full
  | .allBase => replicate totalChunks .base
  | .mixed3Span => env.buildMixed3SpanTiers totalChunks
  | .thresholdMixed => env.buildThresholdMixedTiers totalChunks

def precisionTiersForRange (totalChunks startChunk endChunk : ℕ) : Except String (List Tier) :=
  if endChunk < startChunk ∨ totalChunks < endChunk then
    .error s!"Invalid chunk range: start={startChunk}, end={endChunk}, total={totalChunks}"
  else .ok (Slice.slice (env.tiersFor totalChunks) startChunk endChunk)

theorem length_normalize : (normalizeThresholdMixedTiers tiers).length = tiers.length := by
  simp only [normalizeThresholdMixedTiers]
  split_ifs
  · rfl
  · exact length_replicate

@[simp] theorem length_tiersFor : (env.tiersFor totalChunks).length = totalChunks := by
  cases h : env.policy <;>
    simp [tiersFor, h, buildMixed3SpanTiers, buildThresholdMixedTiers, length_normalize]

theorem precisionTiersForRange_all :
    env.precisionTiersForRange totalChunks 0 totalChunks = .ok (env.tiersFor totalChunks) := by
  rw [precisionTiersForRange, if_neg (by omega), Slice.slice_all _ (by simp)]

end PrecisionEnv

variable {A : Type}

theorem flatMap_groupFrom (xs : List A) (width : ℕ) {start idx : ℕ} (current : Tier)
    (tiers : List Tier) (h : start < idx) :
    (groupFrom start current idx tiers).flatMap (fun span =>
        Slice.slice xs (span.start * width) (span.stop * width)) =
      Slice.slice xs (start * width) ((idx + tiers.length) * width) := by
  induction tiers generalizing start idx current with
  | nil => simp [groupFrom]
  | cons tier tiers ih =>
    rw [groupFrom, length_cons, ← Nat.add_assoc, Nat.add_right_comm]
    split_ifs
    · exact ih current (by omega)
    · rw [flatMap_cons, ih tier (by omega)]
      have hle : idx ≤ idx + 1 + tiers.length := by omega
      exact Slice.slice_append xs (Nat.mul_le_mul_right _ h.le) (Nat.mul_le_mul_right _ hle)

theorem flatMap_groupPrecisionTierSpans (xs : List A) (width : ℕ) (tiers : List Tier) :
    (groupPrecisionTierSpans tiers).flatMap (fun span =>
        Slice.slice xs (span.start * width) (span.stop * width)) =
      xs.take (tiers.length * width) := by
  cases tiers with
  | nil => simp [groupPrecisionTierSpans]
  | cons tier tiers =>
    rw [groupPrecisionTierSpans, flatMap_groupFrom xs width tier tiers Nat.one_pos, Nat.zero_mul,
      Slice.slice_zero, length_cons, Nat.add_comm]

theorem bounds_groupFrom {start idx : ℕ} {current : Tier} {tiers : List Tier} (h : start < idx) :
    ∀ span ∈ groupFrom start current idx tiers,
      span.start < span.stop ∧ span.stop ≤ idx + tiers.length := by
  induction tiers generalizing start idx current with
  | nil =>
    intro span hspan
    rw [groupFrom, mem_singleton] at hspan
    subst hspan
    exact ⟨h, le_rfl⟩
  | cons tier tiers ih =>
    intro span hspan
    rw [groupFrom] at hspan
    rw [length_cons]
    split_ifs at hspan
    · have := ih (by omega) span hspan
      omega
    · rcases mem_cons.mp hspan with rfl | hspan
      · exact ⟨h, Nat.le_add_right idx _⟩
      · have := ih (by omega) span hspan
        omega

theorem bounds_groupPrecisionTierSpans {tiers : List Tier} :
    ∀ span ∈ groupPrecisionTierSpans tiers, span.start < span.stop ∧ span.stop ≤ tiers.length := by
  cases tiers with
  | nil => simp [groupPrecisionTierSpans]
  | cons tier tiers =>
    intro span hspan
    have := bounds_groupFrom Nat.one_pos span hspan
    rw [length_cons]
    omega

end LMCache
