import LMCache.Distributed.L1WriteReservation
import LMCache.Multiprocess.PrecisionCodec

namespace LMCache

open List

inductive StorePoint where
  | reserving (span : ℕ)
  | transferring (chunk : ℕ)
deriving DecidableEq

def storeSpans {K : Type} (tiers : List Tier) (objKeys : List K) : List (List K) :=
  ((groupPrecisionTierSpans tiers).map fun span =>
    Slice.slice objKeys span.start span.stop).filter fun keys => !keys.isEmpty

structure SpanAnswer where
  elapsedMs : ℕ
  granted : Bool

-- the L1 manager during a store: reserved has the keys of reserved_dict, committed those whose
-- write has been finished since
structure SpanStoring (K : Type) where
  manager : L1Manager K
  now : ℕ
  reserved : List K
  committed : List K

namespace SpanStoring

open L1Manager

variable {K : Type} [DecidableEq K]

def start (manager : L1Manager K) (now : ℕ) : SpanStoring K := ⟨manager, now, [], []⟩

def succeeded : Option L1OperationResult → Bool
  | some (.success, some _) => true
  | _ => false

def reserveWrite (run : SpanStoring K) (answer : SpanAnswer) (keys : List K) : SpanStoring K :=
  let now := run.now + answer.elapsedMs
  let (ret, manager) := run.manager.reserveWrite now answer.granted keys
    (replicate keys.length false) .new
  { run with
    manager := manager
    now := now
    reserved := run.reserved ++ keys.filter fun k => succeeded (ret.get? k) }

def reserveSpans (answers : ℕ → SpanAnswer) : ℕ → SpanStoring K → List (List K) → SpanStoring K
  | _, run, [] => run
  | i, run, keys :: spans => reserveSpans answers (i + 1) (run.reserveWrite (answers i) keys) spans

def finishWrite (run : SpanStoring K) (elapsedMs : ℕ) : SpanStoring K :=
  let now := run.now + elapsedMs
  let (ret, manager) := run.manager.finishWrite now run.reserved
  { run with
    manager := manager
    now := now
    committed := run.reserved.filter fun k => ret.get? k == some .success }

end SpanStoring

def StorePoint.numReserved (numSpans : ℕ) : StorePoint → ℕ
  | .reserving span => min span numSpans
  | .transferring _ => numSpans

namespace SpanStoring

open L1Manager

variable {K : Type} [DecidableEq K]

def store (manager : L1Manager K) (now : ℕ) (answers : ℕ → SpanAnswer) (copyMs : ℕ)
    (spans : List (List K)) : Option StorePoint → SpanStoring K
  | none => (reserveSpans answers 0 (start manager now) spans).finishWrite copyMs
  | some point =>
      reserveSpans answers 0 (start manager now) (spans.take (point.numReserved spans.length))

structure LeavesNothing (before : L1Manager K) (run : SpanStoring K) : Prop where
  released : ∀ ms, ∀ k ∈ run.reserved, ∀ entry, run.manager.objects.get? k = some entry →
    entry.writeLock.isLocked (run.now + ms) = false ∧ k ∈ run.committed
  unchanged : ∀ k entry, before.objects.get? k = some entry →
    run.manager.objects.get? k = some entry

def BringsNothing (before : L1Manager K) (answers : ℕ → SpanAnswer) (spans : List (List K)) : Prop :=
  ∀ i keys, spans[i]? = some keys → (answers i).granted = true →
    ∀ k ∈ keys, (before.objects.get? k).isSome = true

variable {before : L1Manager K} {run : SpanStoring K}

structure Inv (before : L1Manager K) (run : SpanStoring K) : Prop where
  new : ∀ k ∈ run.reserved, before.objects.get? k = none ∧
    (run.manager.objects.get? k).isSome = true
  same : ∀ k, k ∉ run.reserved → run.manager.objects.get? k = before.objects.get? k
  uncommitted : run.committed = []

theorem inv_start (manager : L1Manager K) (now : ℕ) : (start manager now).Inv manager :=
  ⟨fun _ hk => absurd hk not_mem_nil, fun _ _ => rfl, rfl⟩

theorem isSuccess_of_succeeded {r : Option L1OperationResult} (h : succeeded r = true) :
    IsSuccess r := by
  cases r with
  | none => cases h
  | some r =>
    obtain ⟨error, obj⟩ := r
    cases error <;> cases obj <;> first | exact ⟨_, rfl⟩ | cases h

def added (run : SpanStoring K) (answer : SpanAnswer) (keys : List K) : List K :=
  keys.filter fun k => succeeded ((run.manager.reserveWrite (run.now + answer.elapsedMs)
    answer.granted keys (replicate keys.length false) .new).1.get? k)

theorem reserved_reserveWrite (run : SpanStoring K) (answer : SpanAnswer) (keys : List K) :
    (run.reserveWrite answer keys).reserved = run.reserved ++ run.added answer keys := rfl

theorem reserveWrite_cases (run : SpanStoring K) (answer : SpanAnswer) (keys : List K) (k : K) :
    (k ∉ run.added answer keys ∧
      (run.reserveWrite answer keys).manager.objects.get? k = run.manager.objects.get? k) ∨
    (k ∈ run.added answer keys ∧ run.manager.objects.get? k = none ∧
      ((run.reserveWrite answer keys).manager.objects.get? k).isSome = true) := by
  obtain ⟨needs, _, hneeds, hout⟩ := run.manager.reserveWrite_spec (run.now + answer.elapsedMs)
    answer.granted keys (replicate keys.length false) .new
  have hk := hout k
  rw [added, mem_filter]
  change _ ∧ (run.manager.reserveWrite _ _ _ _ _).2.objects.get? k = _ ∨
    _ ∧ _ ∧ ((run.manager.reserveWrite _ _ _ _ _).2.objects.get? k).isSome = true
  generalize run.manager.objects.get? k = o at hk ⊢
  generalize (run.manager.reserveWrite (run.now + answer.elapsedMs) answer.granted keys
    (replicate keys.length false) .new).2.objects.get? k = o' at hk ⊢
  generalize (run.manager.reserveWrite (run.now + answer.elapsedMs) answer.granted keys
    (replicate keys.length false) .new).1.get? k = r at hk ⊢
  cases hk with
  | untouched hr => exact .inl ⟨fun h => hr (isSuccess_of_succeeded h.2), rfl⟩
  | @allocated i isTemp hi =>
    exact .inr ⟨⟨(of_mem_zip (hneeds _ (mem_of_getElem? hi))).1, rfl⟩, rfl, rfl⟩
  | relocked n hnew _ _ => exact absurd rfl hnew

theorem mem_added_iff (run : SpanStoring K) (answer : SpanAnswer) (keys : List K) (k : K) :
    k ∈ run.added answer keys ↔
      run.manager.objects.get? k = none ∧ answer.granted = true ∧ k ∈ keys := by
  have hin : k ∈ (keys.zip (replicate keys.length false)).map Prod.fst ↔ k ∈ keys := by
    rw [map_fst_zip (by simp)]
  have habsent := fun h => run.manager.reserveWrite_absent_iff (run.now + answer.elapsedMs)
    answer.granted keys (replicate keys.length false) .new (k := k) h
  rw [hin] at habsent
  rcases run.reserveWrite_cases answer keys k with ⟨hout, hsame⟩ | ⟨hadded, hnone, hsome⟩
  · refine iff_of_false hout fun ⟨hnone, hgranted, hkey⟩ => ?_
    have hsome := (habsent hnone).mpr ⟨hgranted, by decide, hkey⟩
    change ((run.reserveWrite answer keys).manager.objects.get? k).isSome = true at hsome
    rw [hsame, hnone] at hsome
    cases hsome
  · have hall := (habsent hnone).mp hsome
    exact iff_of_true hadded ⟨hnone, hall.1, hall.2.2⟩

theorem Inv.reserveWrite (h : run.Inv before) (answer : SpanAnswer) (keys : List K) :
    (run.reserveWrite answer keys).Inv before := by
  refine ⟨fun k hk => ?_, fun k hk => ?_, h.uncommitted⟩
  · rw [reserved_reserveWrite, mem_append] at hk
    rcases run.reserveWrite_cases answer keys k with ⟨hout, hsame⟩ | ⟨hadded, hnone, hsome⟩
    · rw [hsame]
      exact h.new k (hk.resolve_right hout)
    · refine ⟨?_, hsome⟩
      by_cases hold : k ∈ run.reserved
      · exact (h.new k hold).1
      · rw [← h.same k hold, hnone]
  · rw [reserved_reserveWrite, mem_append, not_or] at hk
    rcases run.reserveWrite_cases answer keys k with ⟨_, hsame⟩ | ⟨hadded, _⟩
    · rw [hsame, h.same k hk.1]
    · exact absurd hadded hk.2

theorem Inv.reserveSpans (h : run.Inv before) (answers : ℕ → SpanAnswer) (i : ℕ)
    (spans : List (List K)) : (reserveSpans answers i run spans).Inv before := by
  induction spans generalizing i run with
  | nil => exact h
  | cons keys spans ih => exact ih (h.reserveWrite (answers i) keys) (i + 1)

theorem mem_reserved_iff (h : run.Inv before) (answers : ℕ → SpanAnswer) (i : ℕ)
    (spans : List (List K)) (k : K) :
    k ∈ (reserveSpans answers i run spans).reserved ↔ k ∈ run.reserved ∨
      before.objects.get? k = none ∧
        ∃ j keys, spans[j]? = some keys ∧ (answers (i + j)).granted = true ∧ k ∈ keys := by
  induction spans generalizing i run with
  | nil => simp [SpanStoring.reserveSpans]
  | cons keys spans ih =>
    have hshift : (∃ j span, (keys :: spans)[j]? = some span ∧ (answers (i + j)).granted = true ∧
        k ∈ span) ↔ ((answers i).granted = true ∧ k ∈ keys) ∨
          ∃ j span, spans[j]? = some span ∧ (answers (i + 1 + j)).granted = true ∧ k ∈ span := by
      constructor
      · rintro ⟨j, span, hget, hgranted, hk⟩
        cases j with
        | zero =>
          cases hget
          exact .inl ⟨hgranted, hk⟩
        | succ j => exact .inr ⟨j, span, hget, by rwa [Nat.add_right_comm, Nat.add_assoc], hk⟩
      · rintro (⟨hgranted, hk⟩ | ⟨j, span, hget, hgranted, hk⟩)
        · exact ⟨0, keys, rfl, hgranted, hk⟩
        · exact ⟨j + 1, span, hget, by rwa [← Nat.add_assoc, Nat.add_right_comm], hk⟩
    rw [SpanStoring.reserveSpans, ih (h.reserveWrite (answers i) keys), reserved_reserveWrite,
      mem_append, mem_added_iff, hshift]
    by_cases hold : k ∈ run.reserved
    · simp [hold]
    · rw [h.same k hold]
      tauto

theorem leavesNothing_iff (manager : L1Manager K) (now : ℕ) (answers : ℕ → SpanAnswer) (copyMs : ℕ)
    (tiers : List Tier) (objKeys : List K) (point : StorePoint) :
    (store manager now answers copyMs (storeSpans tiers objKeys) (some point)).LeavesNothing manager ↔
      BringsNothing manager answers ((storeSpans tiers objKeys).take
        (point.numReserved (storeSpans tiers objKeys).length)) := by
  rw [store]
  generalize (storeSpans tiers objKeys).take
    (point.numReserved (storeSpans tiers objKeys).length) = spans
  have hinv := (inv_start manager now).reserveSpans answers 0 spans
  have hmem := mem_reserved_iff (inv_start manager now) answers 0 spans
  constructor
  · intro hnothing i keys hspan hgranted k hk
    by_contra hnone
    have hreserved := (hmem k).mpr (.inr ⟨by simpa using hnone, i, keys, hspan, by rwa [Nat.zero_add],
      hk⟩)
    obtain ⟨entry, hentry⟩ := Option.isSome_iff_exists.mp (hinv.new k hreserved).2
    have hcommitted := (hnothing.released 0 k hreserved entry hentry).2
    rw [hinv.uncommitted] at hcommitted
    cases hcommitted
  · intro hbrings
    have hnone : ∀ k, k ∉ (reserveSpans answers 0 (start manager now) spans).reserved := by
      intro k hk
      rcases (hmem k).mp hk with hstart | ⟨habsent, i, keys, hspan, hgranted, hkey⟩
      · cases hstart
      · have hthere := hbrings i keys hspan (by rwa [Nat.zero_add] at hgranted) k hkey
        rw [habsent] at hthere
        cases hthere
    exact ⟨fun _ k hk => absurd hk (hnone k), fun k entry hentry => by rwa [hinv.same k (hnone k)]⟩

theorem not_leavesNothing_secondSpan : ¬ ∀ (manager : L1Manager ℕ) (now : ℕ)
    (answers : ℕ → SpanAnswer) (copyMs : ℕ) (tiers : List Tier) (objKeys : List ℕ)
    (point : StorePoint), (store manager now answers copyMs (storeSpans tiers objKeys)
      (some point)).LeavesNothing manager := by
  intro h
  have hnothing := h (.init 600 300) 0 (fun _ => ⟨0, true⟩) 0 [.full, .base] [0, 1] (.reserving 1)
  exact absurd (hnothing.released 0 0 (by decide +kernel) ⟨0, ⟨1, 600000, 600000⟩, ⟨0, 0, 300000⟩,
    false⟩ (by decide +kernel)).1 (by decide +kernel)

end SpanStoring

end LMCache
