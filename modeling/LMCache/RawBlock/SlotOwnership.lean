import LMCache.RawBlock.SlotsHeld

namespace LMCache.RawBlock

open Utils Protocol Execution Dict List

namespace RawBlockState

variable {K : Type} [DecidableEq K] {config : RawBlockConfig} {s : RawBlockState K config}

structure WritesPending (s : RawBlockState K config) : Prop where
  tasks : ∀ key, key ∈ s.putTasks → ∃ job, s.jobs.get? key = some job
  reserved : ∀ key entry, s.inflight.get? key = some entry →
    ∃ job offset, s.jobs.get? key = some job ∧ job.phase.offset? = some offset

section Steps

variable (h : s.WritesPending) {key : K} {job : WriteJob K config}

include h

theorem WritesPending.inflight_eq_none (hjob : s.jobs.get? key = some job)
    (hoffset : job.phase.offset? = none) : s.inflight.get? key = none := by
  cases hinflight : s.inflight.get? key with
  | none => rfl
  | some entry =>
    obtain ⟨job', offset, hjob', hoffset'⟩ := h.reserved key entry hinflight
    rw [hjob] at hjob'
    rw [← Option.some.inj hjob', hoffset] at hoffset'
    cases hoffset'

theorem WritesPending.submit (hheld : s.SlotsHeld) (key : K) (obj : ChunkObj config) :
    (s.submit key obj).WritesPending := by
  rw [RawBlockState.submit]
  split
  · exact h
  · next hnew =>
    constructor
    · intro key' hmem
      dsimp only
      rw [get?_set]
      split
      · exact ⟨_, rfl⟩
      · next hne => exact h.tasks key' (Finset.mem_of_mem_insert_of_ne hmem (Ne.symm hne))
    · intro key' entry hentry
      obtain ⟨job', offset, hjob', hoffset'⟩ := h.reserved key' entry hentry
      dsimp only
      rw [get?_set]
      split
      · next heq => exact absurd (hheld.tasks key' job' hjob') (heq ▸ hnew)
      · exact ⟨job', offset, hjob', hoffset'⟩

theorem WritesPending.setPhase (hjob : s.jobs.get? key = some job) {phase : WritePhase K}
    (hoffset : phase.offset? = job.phase.offset?) : (s.setPhase key job phase).WritesPending := by
  constructor
  · intro key' hmem
    change ∃ job', (s.jobs.set key { job with phase := phase }).get? key' = some job'
    rw [get?_set]
    split
    · exact ⟨_, rfl⟩
    · exact h.tasks key' hmem
  · intro key' entry hentry
    obtain ⟨job', offset, hjob', hoffset'⟩ := h.reserved key' entry hentry
    change ∃ job' offset, (s.jobs.set key { job with phase := phase }).get? key' = some job' ∧
      job'.phase.offset? = some offset
    rw [get?_set]
    split
    · next heq =>
      rw [← heq, hjob] at hjob'
      rw [← Option.some.inj hjob', ← hoffset] at hoffset'
      exact ⟨_, offset, rfl, hoffset'⟩
    · exact ⟨job', offset, hjob', hoffset'⟩

theorem WritesPending.discardPut (hinflight : s.inflight.get? key = none) :
    (s.discardPut key).WritesPending := by
  constructor
  · intro key' hmem
    obtain ⟨hne, hmem⟩ := Finset.mem_erase.mp hmem
    change ∃ job', (s.jobs.erase key).get? key' = some job'
    rw [get?_erase, if_neg (Ne.symm hne)]
    exact h.tasks key' hmem
  · intro key' entry hentry
    change ∃ job' offset, (s.jobs.erase key).get? key' = some job' ∧
      job'.phase.offset? = some offset
    rw [get?_erase]
    split
    · next heq =>
      have hentry' : s.inflight.get? key' = some entry := hentry
      rw [← heq, hinflight] at hentry'
      cases hentry'
    · exact h.reserved key' entry hentry

theorem WritesPending.removeKey (key : K) : (s.removeKey key).WritesPending := by
  refine ⟨h.tasks, ?_⟩
  intro key' entry hentry
  have hold : ∃ entry', s.inflight.get? key' = some entry' := by
    cases hinflight : s.inflight.get? key with
    | none =>
      simp only [RawBlockState.removeKey, hinflight] at hentry
      exact ⟨entry, hentry⟩
    | some entry' =>
      simp only [RawBlockState.removeKey, hinflight] at hentry
      rw [get?_set] at hentry
      split at hentry
      · next heq => exact ⟨entry', heq ▸ hinflight⟩
      · exact ⟨entry, hentry⟩
  obtain ⟨entry', hentry'⟩ := hold
  exact h.reserved key' entry' hentry'

theorem WritesPending.reserve (hjob : s.jobs.get? key = some job)
    (hoffset : job.phase.offset? = none) {answer : SizeAnswer}
    (hanswer : s.capacityBytes = 0 → answer ≠ .osError) :
    (s.reserve key job answer).WritesPending := by
  have hinflight := h.inflight_eq_none hjob hoffset
  rw [RawBlockState.reserve]
  split
  · exact h.discardPut hinflight
  · have hkeeps := reserveSlot_keeps (s := s)
      (P := fun s₁ : RawBlockState K config =>
        s₁.putTasks = s.putTasks ∧ s₁.jobs = s.jobs ∧ s₁.inflight = s.inflight)
      (fun _ _ _ h₁ => h₁) (fun _ _ h₁ => h₁) (fun _ _ _ h₁ _ _ _ => h₁)
      answer (s.lru.length + 1) ⟨rfl, rfl, rfl⟩
    rcases hkeeps with
      ⟨offset, s', s₀, hslot, ⟨htasks, hjobs, hinf⟩, htaken⟩ |
        ⟨s', ⟨htasks, hjobs, hinf⟩, herror | ⟨_, hzero, hos⟩⟩
    · have hsame : s'.putTasks = s.putTasks ∧ s'.jobs = s.jobs ∧ s'.inflight = s.inflight := by
        cases htaken with
        | reuse slot rest hfree => exact ⟨htasks, hjobs, hinf⟩
        | extend => exact ⟨htasks, hjobs, hinf⟩
      rw [hslot]
      dsimp only
      rw [hsame.2.1, hsame.2.2]
      constructor
      · intro key' hmem
        rw [hsame.1] at hmem
        dsimp only
        rw [get?_set]
        split
        · exact ⟨_, rfl⟩
        · exact h.tasks key' hmem
      · intro key' entry hentry
        dsimp only at hentry ⊢
        rw [get?_set] at hentry ⊢
        split
        · exact ⟨_, offset, rfl, rfl⟩
        · next hne =>
          rw [if_neg hne] at hentry
          exact h.reserved key' entry hentry
    · rw [herror]
      have hsame : s'.WritesPending :=
        ⟨by rw [htasks, hjobs]; exact h.tasks, by rw [hinf, hjobs]; exact h.reserved⟩
      exact hsame.discardPut (by rw [hinf]; exact hinflight)
    · exact absurd hos (hanswer hzero)

theorem WritesPending.complete (job : WriteJob K config) (failed : Bool)
    (hinflight : ∃ entry, s.inflight.get? key = some entry) :
    (s.complete key job failed).WritesPending := by
  have hreleased : ∀ phase, ∀ index : Dict K BlockEntry, ∀ freeSlots lru,
      ({ s with
        index := index, inflight := s.inflight.erase key, freeSlots := freeSlots, lru := lru
        }.setPhase key job phase).WritesPending := by
    intro phase index freeSlots lru
    constructor
    · intro key' hmem
      change ∃ job', (s.jobs.set key { job with phase := phase }).get? key' = some job'
      rw [get?_set]
      split
      · exact ⟨_, rfl⟩
      · exact h.tasks key' hmem
    · intro key' entry hentry
      change (s.inflight.erase key).get? key' = some entry at hentry
      rw [get?_erase] at hentry
      split at hentry
      · cases hentry
      · next hne =>
        change ∃ job' offset, (s.jobs.set key { job with phase := phase }).get? key' =
          some job' ∧ job'.phase.offset? = some offset
        rw [get?_set, if_neg hne]
        exact h.reserved key' entry hentry
  obtain ⟨entry, hinflight⟩ := hinflight
  simp only [RawBlockState.complete, hinflight]
  split
  · exact hreleased _ _ _ _
  · exact hreleased _ _ _ _

end Steps

def Settled (s : RawBlockState K config) : RawBlockEvent K config → Prop
  | .start key =>
      match s.jobs.get? key with
      | some ⟨obj, .queued _⟩ => config.Fits obj
      | _ => True
  | .reserve _ answer => s.capacityBytes = 0 → answer ≠ .osError
  | _ => True

variable {event : RawBlockEvent K config}

theorem Settled.contained (h : s.Settled event) : s.Contained event := by
  cases event with
  | start key =>
    simp only [Settled] at h
    simp only [Contained]
    split
    · next obj offset hjob =>
      rw [hjob] at h
      exact fun _ => h
    · trivial
  | _ => trivial

theorem Fits.rejects {obj : ChunkObj config} (h : config.Fits obj) :
    config.rejects obj = false := by
  rw [RawBlockConfig.rejects, Bool.and_eq_false_iff, decide_eq_false_iff_not]
  have hpayload := h.2
  exact Or.inr (by omega)

theorem WritesPending.exec (h : s.WritesPending) (hheld : s.SlotsHeld) (codec : KeyCodec K)
    (hsettled : s.Settled event) :
    (s.exec codec event).WritesPending := by
  cases event with
  | submit key obj => exact h.submit hheld key obj
  | reserve key answer =>
    simp only [RawBlockState.exec]
    split
    · next obj hjob => exact h.reserve hjob rfl hsettled
    · exact h
  | start key =>
    simp only [RawBlockState.exec]
    simp only [Settled] at hsettled
    split
    · next obj offset hjob =>
      rw [hjob] at hsettled
      rw [startWrite, Fits.rejects hsettled, if_neg Bool.false_ne_true]
      exact h.setPhase hjob rfl
    · exact h
  | writeHeader key outcome | writePayload key outcome =>
    simp only [RawBlockState.exec]
    split
    · next obj offset hjob =>
      have hwritten : ∀ w, (s.deviceWrite w).WritesPending := fun _ => ⟨h.tasks, h.reserved⟩
      cases outcome with
      | done => exact (hwritten _).setPhase hjob rfl
      | failed written => exact (hwritten _).setPhase hjob rfl
    · exact h
  | complete key =>
    simp only [RawBlockState.exec]
    split
    · next obj offset failed hjob =>
      obtain ⟨entry, hentry, _⟩ := hheld.reserved key _ hjob offset rfl
      exact h.complete _ failed ⟨entry, hentry⟩
    · exact h
  | saveManifest key =>
    simp only [RawBlockState.exec]
    split
    · next obj hjob =>
      have hcounted : ∀ n, { s with writesSinceManifestSave := n }.WritesPending := fun _ =>
        ⟨h.tasks, h.reserved⟩
      rw [maybeSaveManifest]
      split
      · exact h.setPhase hjob rfl
      · split
        · exact (hcounted 0).setPhase hjob rfl
        · exact (hcounted (s.writesSinceManifestSave + 1)).setPhase hjob rfl
    · exact h
  | replaceManifest key saved =>
    simp only [RawBlockState.exec]
    split
    · next obj snapshot hjob =>
      have hreplaced : ∀ manifest, { s with manifest := manifest }.WritesPending := fun _ =>
        ⟨h.tasks, h.reserved⟩
      exact (hreplaced (if saved then some snapshot else s.manifest)).setPhase hjob rfl
    · exact h
  | finish key =>
    simp only [RawBlockState.exec]
    split
    · next obj hjob => exact h.discardPut (h.inflight_eq_none hjob rfl)
    · exact h
  | remove key => exact h.removeKey key
  | contains holder key pin =>
    simp only [RawBlockState.exec, pinKey]
    split
    · split
      · exact ⟨h.tasks, h.reserved⟩
      · exact h
    · exact h
  | pin holder key =>
    simp only [RawBlockState.exec, pinKey]
    split
    · exact ⟨h.tasks, h.reserved⟩
    · exact h
  | unpin holder key => exact ⟨h.tasks, h.reserved⟩
  | lookup reader key =>
    simp only [RawBlockState.exec, lookup]
    split
    · exact h
    · split
      · exact ⟨h.tasks, h.reserved⟩
      · exact h
  | read reader buffer =>
    simp only [RawBlockState.exec, readPayload]
    split
    · split
      · split
        · exact ⟨h.tasks, h.reserved⟩
        · exact ⟨h.tasks, h.reserved⟩
      · exact h
    · exact h
  | readFails reader | touch reader =>
    simp only [RawBlockState.exec]
    split
    · exact ⟨h.tasks, h.reserved⟩
    · exact h

def ownerCount (s : RawBlockState K config) (slot : ℕ) : ℕ :=
  s.freeSlots.count slot + (s.index.values.map BlockEntry.offset).count (slotOffset config slot) +
    (s.inflight.values.map Inflight.offset).count (slotOffset config slot)

structure SlotOwnership (s : RawBlockState K config) : Prop where
  oneOwner : ∀ slot < s.nextSlot, s.ownerCount slot = 1
  writing : ∀ key job offset, s.jobs.get? key = some job → job.phase.offset? = some offset →
    offset / config.slotBytes ∉ s.freeSlots ∧
      (∀ key' entry, s.index.get? key' = some entry → entry.offset ≠ offset) ∧
      ∀ key' entry, s.inflight.get? key' = some entry → entry.offset = offset → key' = key
  inside : ∀ w ∈ s.deviceWrites, w.Inside config
  idle : ∀ key, s.jobs.get? key = none → s.inflight.get? key = none ∧ key ∉ s.putTasks

theorem SlotsHeld.oneOwner (h : s.SlotsHeld) {slot : ℕ} (hslot : slot < s.nextSlot) :
    s.ownerCount slot = 1 := by
  have hcount := h.owned.count_eq (slotOffset config slot)
  have hrange : ((range s.nextSlot).map (slotOffset config)).count
      (slotOffset config slot) = 1 := by
    rw [count_map_of_injective _ _ slotOffset_injective]
    exact count_eq_one_of_mem nodup_range (mem_range.mpr hslot)
  rw [nil_append, count_append, count_append,
    count_map_of_injective _ _ slotOffset_injective, hrange] at hcount
  exact hcount

theorem SlotsHeld.slotOwnership (h : s.SlotsHeld) (hpending : s.WritesPending) :
    s.SlotOwnership where
  oneOwner := fun _ hslot => h.oneOwner hslot
  writing := by
    intro key job offset hjob hoffset
    obtain ⟨entry, hentry, rfl⟩ := h.reserved key job hjob offset hoffset
    exact h.exclusive hentry
  inside := h.inside
  idle := by
    intro key hjob
    constructor
    · cases hinflight : s.inflight.get? key with
      | none => rfl
      | some entry =>
        obtain ⟨job, _, hget, _⟩ := hpending.reserved key entry hinflight
        rw [hjob] at hget
        cases hget
    · intro hmem
      obtain ⟨job, hget⟩ := hpending.tasks key hmem
      rw [hjob] at hget
      cases hget

theorem slotOwnership_final (codec : KeyCodec K) (device : ℕ → UInt8)
    (events : List (RawBlockEvent K config))
    (h : Along (exec codec) Settled (RawBlockState.start config device) events) :
    (final (exec codec) (RawBlockState.start config device) events).SlotOwnership := by
  have hfinal := invariant_final (I := fun s : RawBlockState K config =>
      s.SlotsHeld ∧ s.WritesPending)
    (fun _ _ hs hsettled => ⟨hs.1.exec codec hsettled.contained, hs.2.exec hs.1 codec hsettled⟩)
    ⟨SlotsHeld.start device, fun _ h => absurd h (Finset.notMem_empty _), fun _ _ h => nomatch h⟩ h
  exact hfinal.1.slotOwnership hfinal.2

def smallDevice (useOdirect : Bool) : RawBlockConfig where
  devicePath := ['d']
  capacityBytes := 64
  blockAlign := 8
  headerBytes := 24
  slotBytes := 32
  useOdirect := useOdirect
  manifestWriteInterval := 1
  physicalSize := fun shape _ _ => (shape.foldr (· * ·) 1).toNat
  blockAlign_pos := by decide
  slotBytes_ge := by decide
  slot_aligned := by decide
  header_aligned := by decide

def filledObj (useOdirect : Bool) (n : ℕ) (b : UInt8) : ChunkObj (smallDevice useOdirect) where
  shape := [n]
  dtype := .uint8
  fmt := .kv2ltd
  cachedPositions := none
  data := replicate n b
  length_data := by simp [smallDevice]

def numberedKeys : KeyCodec ℕ where
  toString := fun n => Nat.toDigits 10 n
  fromString := fun s => some (Nat.ofDigitChars 10 s 0)
  dtype := fun _ => .uint8
  chunkHash := fun n => n

def putEvents {K : Type} (useOdirect : Bool) (key : K) (n : ℕ) (b : UInt8) :
    List (RawBlockEvent K (smallDevice useOdirect)) :=
  [.submit key (filledObj useOdirect n b), .reserve key (.size 64), .start key,
    .writeHeader key .done, .writePayload key .done, .complete key]

def emptyDevice {K : Type} (useOdirect : Bool) : RawBlockState K (smallDevice useOdirect) :=
  .start (smallDevice useOdirect) fun _ => 0

theorem slotOwnership_final_onePut :
    (final (exec numberedKeys) (emptyDevice true) (putEvents true 1 8 7)).SlotOwnership :=
  slotOwnership_final numberedKeys _ (putEvents true 1 8 7)
    ⟨trivial, ⟨fun _ h => (nomatch h), ⟨(by decide : (smallDevice true).Fits _),
      ⟨trivial, ⟨trivial, ⟨trivial, trivial⟩⟩⟩⟩⟩⟩

theorem not_slotOwnership_rejectedPut :
    ¬ (final (exec numberedKeys) (emptyDevice true) (putEvents true 1 9 7)).SlotOwnership := by
  intro h
  have hidle := (h.idle 1 (by decide)).1
  revert hidle
  decide

theorem not_slotOwnership_overrun :
    ¬ (final (exec numberedKeys) (emptyDevice false) (putEvents false 1 9 7)).SlotOwnership := by
  intro h
  have hinside := (h.inside _ (mem_of_getElem? (i := 1) rfl)).2
  revert hinside
  decide

end RawBlockState

end LMCache.RawBlock
