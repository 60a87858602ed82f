import LMCache.RawBlock.SlotReservation
import LMCache.Foundations.Execution

namespace LMCache.RawBlock

open Utils Protocol Execution Dict BlockEntry RawBlockConfig Nat Option

section Owned

variable {K : Type} (config : RawBlockConfig)

def Owned (extra : List ℕ) (index : Dict K BlockEntry) (inflight : Dict K Inflight)
    (freeSlots : List ℕ) (nextSlot : ℕ) : Prop :=
  (extra ++ freeSlots.map (slotOffset config) ++ index.values.map offset ++
    inflight.values.map Inflight.offset).Perm ((List.range nextSlot).map (slotOffset config))

variable {config} {index : Dict K BlockEntry} {inflight : Dict K Inflight} {freeSlots : List ℕ}
  {nextSlot : ℕ} {extra : List ℕ}

theorem slotBytes_pos : 0 < config.slotBytes :=
  lt_of_lt_of_le (succ_pos _) config.slotBytes_ge

theorem slotOffset_div (slot : ℕ) : slotOffset config slot / config.slotBytes = slot :=
  Nat.mul_div_cancel slot slotBytes_pos

theorem slotOffset_injective : Function.Injective (slotOffset config) := fun _ _ h =>
  eq_of_mul_eq_mul_right slotBytes_pos h

theorem nodup_slotOffsets (n : ℕ) : ((List.range n).map (slotOffset config)).Nodup :=
  List.nodup_range.map slotOffset_injective

theorem Owned.nodup (h : Owned config extra index inflight freeSlots nextSlot) :
    (extra ++ freeSlots.map (slotOffset config) ++ index.values.map BlockEntry.offset ++
      inflight.values.map Inflight.offset).Nodup :=
  h.nodup_iff.mpr (nodup_slotOffsets nextSlot)

theorem Owned.slotOffset_div_of_mem (h : Owned config extra index inflight freeSlots nextSlot)
    {offset : ℕ}
    (hmem : offset ∈ extra ++ freeSlots.map (slotOffset config) ++
      index.values.map BlockEntry.offset ++ inflight.values.map Inflight.offset) :
    slotOffset config (offset / config.slotBytes) = offset := by
  obtain ⟨slot, _, rfl⟩ := List.mem_map.mp (h.mem_iff.mp hmem)
  rw [slotOffset_div]

theorem slots_apart {slot slot' : ℕ} (h : slotOffset config slot ≠ slotOffset config slot') :
    slotOffset config slot + config.slotBytes ≤ slotOffset config slot' ∨
      slotOffset config slot' + config.slotBytes ≤ slotOffset config slot := by
  rcases lt_or_gt_of_ne fun heq : slot = slot' => h (by rw [heq]) with hlt | hlt
  · refine Or.inl ?_
    rw [slotOffset, ← succ_mul]
    exact mul_le_mul_right _ hlt
  · refine Or.inr ?_
    rw [slotOffset, ← succ_mul]
    exact mul_le_mul_right _ hlt

theorem Owned.apart (h : Owned config extra index inflight freeSlots nextSlot) {offset offset' : ℕ}
    (hmem : offset ∈ extra ++ freeSlots.map (slotOffset config) ++
      index.values.map BlockEntry.offset ++ inflight.values.map Inflight.offset)
    (hmem' : offset' ∈ extra ++ freeSlots.map (slotOffset config) ++
      index.values.map BlockEntry.offset ++ inflight.values.map Inflight.offset)
    (hne : offset ≠ offset') :
    offset + config.slotBytes ≤ offset' ∨ offset' + config.slotBytes ≤ offset := by
  obtain ⟨slot, _, rfl⟩ := List.mem_map.mp (h.mem_iff.mp hmem)
  obtain ⟨slot', _, rfl⟩ := List.mem_map.mp (h.mem_iff.mp hmem')
  exact slots_apart hne

theorem Owned.reuse {slot : ℕ} {rest : List ℕ} (hfree : freeSlots = rest ++ [slot])
    (h : Owned config extra index inflight freeSlots nextSlot) :
    Owned config (slotOffset config slot :: extra) index inflight rest nextSlot := by
  refine List.Perm.trans (List.Perm.append_right _ (List.Perm.append_right _ ?_)) h
  rw [hfree, List.map_append, List.map_singleton, ← List.append_assoc]
  exact (List.perm_append_singleton _ _).symm

theorem Owned.extend (h : Owned config extra index inflight freeSlots nextSlot) :
    Owned config (slotOffset config nextSlot :: extra) index inflight freeSlots (nextSlot + 1) := by
  rw [Owned, List.range_succ, List.map_append, List.map_singleton]
  exact (List.Perm.cons _ h).trans (List.perm_append_singleton _ _).symm

variable [DecidableEq K]

theorem offset_mem_index {key : K} {entry : BlockEntry} (h : index.get? key = some entry) :
    entry.offset ∈ index.values.map offset :=
  List.mem_map_of_mem ((mem_values_iff index entry).mpr ⟨key, h⟩)

variable {entry : Inflight}

theorem offset_mem_inflight {key : K} (h : inflight.get? key = some entry) :
    entry.offset ∈ inflight.values.map Inflight.offset :=
  List.mem_map_of_mem ((mem_values_iff inflight entry).mpr ⟨key, h⟩)

theorem Owned.free_index (h : Owned config extra index inflight freeSlots nextSlot) {key : K}
    {entry : BlockEntry} (hget : index.get? key = some entry) :
    Owned config extra (index.erase key) inflight
      (freeSlots ++ [entry.offset / config.slotBytes]) nextSlot := by
  have hoffset : slotOffset config (entry.offset / config.slotBytes) = entry.offset :=
    h.slotOffset_div_of_mem
      (List.mem_append_left _ (List.mem_append_right _ (offset_mem_index hget)))
  have herase := (values_erase_perm index key).map BlockEntry.offset
  rw [hget, toList_some, List.map_append, List.map_singleton] at herase
  refine List.Perm.trans (List.Perm.append_right _ ?_) h
  rw [List.map_append, List.map_singleton, hoffset, List.append_assoc, List.append_assoc,
    List.append_assoc]
  exact ((herase.append_left _)).append_left _

theorem Owned.free_inflight (h : Owned config extra index inflight freeSlots nextSlot) {key : K}
    (hget : inflight.get? key = some entry) :
    Owned config extra index (inflight.erase key)
      (freeSlots ++ [entry.offset / config.slotBytes]) nextSlot := by
  have hoffset : slotOffset config (entry.offset / config.slotBytes) = entry.offset :=
    h.slotOffset_div_of_mem (List.mem_append_right _ (offset_mem_inflight hget))
  have herase := (values_erase_perm inflight key).map Inflight.offset
  rw [hget, toList_some, List.map_append, List.map_singleton] at herase
  refine List.Perm.trans ?_ (List.Perm.trans (herase.append_left _) h)
  rw [List.map_append, List.map_singleton, hoffset, ← List.append_assoc, ← List.append_assoc,
    List.append_assoc _ [entry.offset], List.append_assoc _ (List.map offset _)]
  exact List.Perm.append_right _ (List.Perm.append_left _ List.perm_append_comm)

theorem Owned.erase_absent (h : Owned config extra index inflight freeSlots nextSlot) {key : K}
    (hnone : index.get? key = none) :
    Owned config extra (index.erase key) inflight freeSlots nextSlot := by
  have herase := (values_erase_perm index key).map offset
  rw [hnone, toList_none, List.nil_append] at herase
  exact ((herase.append_left _).append_right _).trans h

theorem Owned.settle (h : Owned config extra index inflight freeSlots nextSlot) {key : K}
    (hget : inflight.get? key = some entry) (hnone : index.get? key = none) (info : BlockMeta) :
    Owned config extra (index.set key ⟨entry.offset, info.size, info⟩) (inflight.erase key)
      freeSlots nextSlot := by
  have herase := (values_erase_perm inflight key).map Inflight.offset
  rw [hget, toList_some, List.map_append, List.map_singleton] at herase
  have hset := (values_set_perm index key ⟨entry.offset, info.size, info⟩).map
    offset
  rw [hnone, toList_none, List.nil_append, List.map_cons] at hset
  refine List.Perm.trans ?_ (List.Perm.trans (herase.append_left _) h)
  rw [← List.append_assoc, List.append_assoc _ (List.map offset index.values) [entry.offset]]
  exact List.Perm.append_right _
    (List.Perm.append_left _ (hset.trans (List.perm_append_singleton _ _).symm))

theorem Owned.occupy {offset : ℕ}
    (h : Owned config (offset :: extra) index inflight freeSlots nextSlot) {key : K}
    (hnone : inflight.get? key = none) (info : BlockMeta) (canceled : Bool) :
    Owned config extra index (inflight.set key ⟨offset, info, canceled⟩) freeSlots nextSlot := by
  have hset := (values_set_perm inflight key ⟨offset, info, canceled⟩).map Inflight.offset
  rw [hnone, toList_none, List.nil_append, List.map_cons] at hset
  exact ((hset.append_left _).trans List.perm_middle).trans h

theorem Owned.cancel (h : Owned config extra index inflight freeSlots nextSlot) {key : K}
    (hget : inflight.get? key = some entry) :
    Owned config extra index (inflight.set key { entry with canceled := true }) freeSlots
      nextSlot := by
  have hset := (values_set_perm inflight key { entry with canceled := true }).map
    Inflight.offset
  rw [hget, toList_some, List.singleton_append, List.map_cons, List.map_cons] at hset
  exact ((List.perm_cons _).mp hset |>.append_left _).trans h

end Owned

namespace RawBlockConfig

def Fits (config : RawBlockConfig) (obj : ChunkObj config) : Prop :=
  config.totalLength config.headerLength ≤ config.slotBytes ∧
    config.headerBytes + config.totalLength obj.data.length ≤ config.slotBytes

instance (config : RawBlockConfig) (obj : ChunkObj config) : Decidable (config.Fits obj) :=
  inferInstanceAs (Decidable (_ ∧ _))

end RawBlockConfig

def WritePhase.started {K : Type} : WritePhase K → Bool
  | .header _ => true
  | .payload _ => true
  | .written _ _ => true
  | _ => false

def DeviceWrite.Inside {K : Type} (config : RawBlockConfig) (w : DeviceWrite K) : Prop :=
  w.slotOffset ≤ w.start ∧ w.start + w.bytes.length ≤ w.slotOffset + config.slotBytes

namespace RawBlockState

variable {K : Type} [DecidableEq K] {config : RawBlockConfig} {s : RawBlockState K config}

structure SlotsHeld (s : RawBlockState K config) : Prop where
  owned : Owned config [] s.index s.inflight s.freeSlots s.nextSlot
  tasks : ∀ key job, s.jobs.get? key = some job → key ∈ s.putTasks
  reserved : ∀ key job, s.jobs.get? key = some job → ∀ offset, job.phase.offset? = some offset →
    ∃ entry, s.inflight.get? key = some entry ∧ entry.offset = offset
  fresh : ∀ key entry, s.inflight.get? key = some entry → s.index.get? key = none
  fits : ∀ key job, s.jobs.get? key = some job → job.phase.started = true → config.Fits job.obj
  inside : ∀ w ∈ s.deviceWrites, w.Inside config

theorem SlotsHeld.start (device : ℕ → UInt8) :
    (RawBlockState.start config device : RawBlockState K config).SlotsHeld where
  owned := .refl _
  tasks := fun _ _ h => nomatch h
  reserved := fun _ _ h => nomatch h
  fresh := fun _ _ h => nomatch h
  fits := fun _ _ h => nomatch h
  inside := fun _ h => nomatch h

theorem SlotsHeld.exclusive (h : s.SlotsHeld) {key : K} {entry : Inflight}
    (hentry : s.inflight.get? key = some entry) :
    entry.offset / config.slotBytes ∉ s.freeSlots ∧
      (∀ key' entry', s.index.get? key' = some entry' → entry'.offset ≠ entry.offset) ∧
      ∀ key' entry', s.inflight.get? key' = some entry' → entry'.offset = entry.offset →
        key' = key := by
  have hnodup := h.owned.nodup
  rw [List.nil_append, List.nodup_append] at hnodup
  obtain ⟨hleft, hright, hapart⟩ := hnodup
  have hmem := offset_mem_inflight hentry
  refine ⟨?_, ?_, ?_⟩
  · intro hfree
    have hoffset := h.owned.slotOffset_div_of_mem (List.mem_append_right _ hmem)
    refine hapart entry.offset (List.mem_append_left _ ?_) entry.offset hmem rfl
    rw [← hoffset]
    exact List.mem_map_of_mem hfree
  · intro key' entry' hentry' heq
    exact hapart entry'.offset (List.mem_append_right _ (offset_mem_index hentry'))
      entry.offset hmem heq
  · intro key' entry' hentry' heq
    exact eq_of_nodup_map_values hright hentry' hentry heq

theorem SlotsHeld.apart_index (h : s.SlotsHeld) {key key' : K} {entry : Inflight}
    {entry' : BlockEntry} (hentry : s.inflight.get? key = some entry)
    (hentry' : s.index.get? key' = some entry') :
    entry.offset + config.slotBytes ≤ entry'.offset ∨
      entry'.offset + config.slotBytes ≤ entry.offset := by
  refine h.owned.apart (List.mem_append_right _ (offset_mem_inflight hentry))
    (List.mem_append_left _ (List.mem_append_right _ (offset_mem_index hentry'))) ?_
  exact ((h.exclusive hentry).2.1 key' entry' hentry').symm

theorem SlotsHeld.apart_inflight (h : s.SlotsHeld) {key key' : K} {entry entry' : Inflight}
    (hentry : s.inflight.get? key = some entry) (hentry' : s.inflight.get? key' = some entry')
    (hne : key' ≠ key) :
    entry.offset + config.slotBytes ≤ entry'.offset ∨
      entry'.offset + config.slotBytes ≤ entry.offset := by
  refine h.owned.apart (List.mem_append_right _ (offset_mem_inflight hentry))
    (List.mem_append_right _ (offset_mem_inflight hentry')) ?_
  intro heq
  exact hne ((h.exclusive hentry).2.2 key' entry' hentry' heq.symm)

section Steps

variable (h : s.SlotsHeld) {key : K} {job : WriteJob K config}

include h

theorem SlotsHeld.evict {victim : K} {entry : BlockEntry}
    (hget : s.index.get? victim = some entry) : (s.evict victim entry).SlotsHeld where
  owned := h.owned.free_index hget
  tasks := h.tasks
  reserved := h.reserved
  fresh := by
    intro key entry' hentry
    change (s.index.erase victim).get? key = none
    rw [get?_erase, h.fresh key entry' hentry, ite_self]
  fits := h.fits
  inside := h.inside

theorem SlotsHeld.submit (key : K) (obj : ChunkObj config) : (s.submit key obj).SlotsHeld := by
  rw [RawBlockState.submit]
  split
  · exact h
  · refine ⟨h.owned, ?_, ?_, h.fresh, ?_, h.inside⟩
    · refine forall_set (fun key' job' hjob' => ?_) (Finset.mem_insert_self _ _)
      exact Finset.mem_insert_of_mem (h.tasks key' job' hjob')
    · exact forall_set h.reserved fun _ hoffset => by cases hoffset
    · exact forall_set h.fits fun hstarted => by cases hstarted

theorem SlotsHeld.setPhase (hjob : s.jobs.get? key = some job) {phase : WritePhase K}
    (hoffset : phase.offset? = job.phase.offset?)
    (hfits : phase.started = true → config.Fits job.obj) :
    (s.setPhase key job phase).SlotsHeld := by
  refine ⟨h.owned, ?_, ?_, h.fresh, ?_, h.inside⟩
  · exact forall_set h.tasks (h.tasks key job hjob)
  · refine forall_set h.reserved ?_
    rw [hoffset]
    exact h.reserved key job hjob
  · exact forall_set h.fits hfits

theorem SlotsHeld.discardPut (key : K) : (s.discardPut key).SlotsHeld := by
  refine ⟨h.owned, ?_, forall_erase h.reserved key, h.fresh, forall_erase h.fits key, h.inside⟩
  intro key' job' hjob'
  change (s.jobs.erase key).get? key' = some job' at hjob'
  rw [get?_erase] at hjob'
  split at hjob'
  · cases hjob'
  · next hne => exact Finset.mem_erase.mpr ⟨Ne.symm hne, h.tasks key' job' hjob'⟩

theorem SlotsHeld.removeKey (key : K) : (s.removeKey key).SlotsHeld := by
  have hfresh : ∀ key' entry, s.inflight.get? key' = some entry →
      (s.index.erase key).get? key' = none := by
    intro key' entry hentry
    rw [get?_erase, h.fresh key' entry hentry, ite_self]
  cases hinflight : s.inflight.get? key with
  | none =>
    cases hindex : s.index.get? key with
    | none =>
      simp only [RawBlockState.removeKey, hinflight, hindex, List.append_nil]
      exact ⟨h.owned.erase_absent hindex, h.tasks, h.reserved, hfresh, h.fits, h.inside⟩
    | some entry =>
      simp only [RawBlockState.removeKey, hinflight, hindex]
      exact ⟨h.owned.free_index hindex, h.tasks, h.reserved, hfresh, h.fits, h.inside⟩
  | some entry =>
    have hindex := h.fresh key entry hinflight
    simp only [RawBlockState.removeKey, hinflight, hindex, List.append_nil]
    refine ⟨(h.owned.cancel hinflight).erase_absent hindex, h.tasks, ?_, ?_, h.fits, h.inside⟩
    · intro key' job' hjob' offset hoffset
      obtain ⟨entry', hentry', heq⟩ := h.reserved key' job' hjob' offset hoffset
      dsimp only
      rw [get?_set]
      split
      · next hkey =>
        rw [← hkey, hinflight] at hentry'
        rw [← some.inj hentry'] at heq
        exact ⟨_, rfl, heq⟩
      · exact ⟨entry', hentry', heq⟩
    · intro key' entry' hentry'
      rw [get?_set] at hentry'
      split at hentry'
      · next heq => exact hfresh key' entry (heq ▸ hinflight)
      · exact hfresh key' entry' hentry'

theorem SlotsHeld.occupy {s' : RawBlockState K config} {offset : ℕ}
    (htaken : Taken s offset s') (hjob : s.jobs.get? key = some job)
    (hindex : s.index.get? key = none) (hinflight : s.inflight.get? key = none)
    (stored : List (K × List UInt8)) :
    { s' with
      inflight := s'.inflight.set key ⟨offset, job.obj.info, false⟩
      jobs := s'.jobs.set key { job with phase := .queued offset }
      stored := stored }.SlotsHeld := by
  have howned : Owned config [offset] s'.index s'.inflight s'.freeSlots s'.nextSlot := by
    cases htaken with
    | reuse slot rest hfree => exact h.owned.reuse hfree
    | extend => exact h.owned.extend
  have hsame : s'.index = s.index ∧ s'.inflight = s.inflight ∧ s'.jobs = s.jobs ∧
      s'.putTasks = s.putTasks ∧ s'.deviceWrites = s.deviceWrites := by
    cases htaken with
    | reuse slot rest hfree => exact ⟨rfl, rfl, rfl, rfl, rfl⟩
    | extend => exact ⟨rfl, rfl, rfl, rfl, rfl⟩
  obtain ⟨hidx, hinf, hjobs, htasks, hwrites⟩ := hsame
  refine ⟨howned.occupy (by rw [hinf, hinflight]) _ _, ?_, ?_, ?_, ?_, ?_⟩
  · dsimp only
    rw [htasks, hjobs]
    exact forall_set h.tasks (h.tasks key job hjob)
  · dsimp only
    rw [hinf, hjobs]
    intro key' job' hjob' offset' hoffset'
    rw [get?_set] at hjob' ⊢
    split at hjob'
    · obtain rfl := some.inj hjob'
      exact ⟨_, if_pos ‹_›, some.inj hoffset'⟩
    · next hne =>
      obtain ⟨entry', hentry', heq⟩ := h.reserved key' job' hjob' offset' hoffset'
      exact ⟨entry', by rw [if_neg hne, hentry'], heq⟩
  · intro key' entry' hentry'
    dsimp only at hentry' ⊢
    rw [hinf, get?_set] at hentry'
    rw [hidx]
    split at hentry'
    · next heq => rw [← heq, hindex]
    · exact h.fresh key' entry' hentry'
  · dsimp only
    rw [hjobs]
    exact forall_set h.fits fun hstarted => by cases hstarted
  · intro w hw
    rw [hwrites] at hw
    exact h.inside w hw

theorem SlotsHeld.reserve (hjob : s.jobs.get? key = some job) (answer : SizeAnswer) :
    (s.reserve key job answer).SlotsHeld := by
  rw [RawBlockState.reserve]
  split
  · exact h.discardPut key
  · next hnew =>
    rw [not_or, contains_iff, contains_iff, ← get?_eq_none_iff, ← get?_eq_none_iff] at hnew
    have hkeeps := reserveSlot_keeps (s := s)
      (P := fun s₁ : RawBlockState K config => s₁.SlotsHeld ∧ s₁.jobs.get? key = some job ∧
        s₁.index.get? key = none ∧ s₁.inflight.get? key = none)
      (fun s₁ capacity max h₁ => ⟨⟨h₁.1.owned, h₁.1.tasks, h₁.1.reserved, h₁.1.fresh, h₁.1.fits,
        h₁.1.inside⟩, h₁.2⟩)
      (fun s₁ lru h₁ => ⟨⟨h₁.1.owned, h₁.1.tasks, h₁.1.reserved, h₁.1.fresh, h₁.1.fits,
        h₁.1.inside⟩, h₁.2⟩)
      (fun s₁ victim entry h₁ _ _ hget => by
        refine ⟨h₁.1.evict hget, h₁.2.1, ?_, h₁.2.2.2⟩
        change (s₁.index.erase victim).get? key = none
        rw [get?_erase, h₁.2.2.1, ite_self])
      answer (s.lru.length + 1) ⟨h, hjob, hnew.1, hnew.2⟩
    rcases hkeeps with ⟨offset, s', s₀, hslot, hs₀, htaken⟩ | ⟨s', hs', herror | ⟨herror, _⟩⟩
    · rw [hslot]
      exact hs₀.1.occupy htaken hs₀.2.1 hs₀.2.2.1 hs₀.2.2.2 _
    · rw [herror]
      exact hs'.1.discardPut key
    · rw [herror]
      refine ⟨hs'.1.owned, ?_, forall_erase hs'.1.reserved key, hs'.1.fresh,
        forall_erase hs'.1.fits key, hs'.1.inside⟩
      exact forall_erase hs'.1.tasks key

theorem SlotsHeld.startWrite {offset : ℕ} (hjob : s.jobs.get? key = some job)
    (hphase : job.phase = .queued offset)
    (hfits : config.rejects job.obj = false → config.Fits job.obj) :
    (s.startWrite key job offset).SlotsHeld := by
  rw [RawBlockState.startWrite]
  split
  · exact h.discardPut key
  · next haccepts =>
    exact h.setPhase hjob (by rw [hphase]; rfl) fun _ => hfits (Bool.eq_false_of_not_eq_true haccepts)

theorem SlotsHeld.deviceWrite {w : DeviceWrite K} (hinside : w.Inside config) :
    (s.deviceWrite w).SlotsHeld where
  owned := h.owned
  tasks := h.tasks
  reserved := h.reserved
  fresh := h.fresh
  fits := h.fits
  inside := by
    intro w' hw'
    rcases List.mem_append.mp hw' with hold | hnew
    · exact h.inside w' hold
    · rw [List.mem_singleton.mp hnew]
      exact hinside

end Steps

section Lengths

variable {K : Type} {config : RawBlockConfig}

theorem length_outcomeBytes_le (outcome : WriteOutcome) (bytes : List UInt8) :
    (outcomeBytes outcome bytes).length ≤ bytes.length := by
  cases outcome with
  | done => exact le_refl _
  | failed written => exact (List.take_prefix _ _).length_le

theorem le_roundUp (x : ℕ) {align : ℕ} (h : 0 < align) : x ≤ roundUp x align := by
  have hdiv := div_add_mod (x + align - 1) align
  have hmod := mod_lt (x + align - 1) h
  rw [roundUp, mul_comm]
  omega

theorem le_totalLength (config : RawBlockConfig) (length : ℕ) :
    length ≤ config.totalLength length := by
  rw [totalLength]
  split
  · exact le_roundUp length config.blockAlign_pos
  · exact le_refl _

theorem length_padded (config : RawBlockConfig) (data : List UInt8) :
    (config.padded data).length = config.totalLength data.length := by
  have hle := le_totalLength config data.length
  rw [padded, List.length_append, List.length_replicate]
  omega

theorem length_leBytes (width n : ℕ) : (leBytes width n).length = width := by
  induction width generalizing n with
  | zero => rfl
  | succ width ih => rw [leBytes, List.length_cons, ih]

theorem length_encodeHeader (config : RawBlockConfig) (chunkHash : ℤ) (payloadLen : ℕ) :
    (config.encodeHeader chunkHash payloadLen).length = config.headerLength := by
  have hmagic : magic.length = 8 := rfl
  rw [encodeHeader, List.length_append, List.length_append, List.length_append,
    length_leBytes, length_leBytes, List.length_replicate, headerLength, hmagic]
  omega

theorem headerWrite_inside (codec : KeyCodec K) (key : K) {job : WriteJob K config}
    (hfits : config.Fits job.obj) (offset : ℕ) (outcome : WriteOutcome) :
    (headerWrite codec key job offset outcome).Inside config := by
  have hlength := length_outcomeBytes_le outcome
    (config.padded (config.encodeHeader (codec.chunkHash key) job.obj.data.length))
  rw [length_padded, length_encodeHeader] at hlength
  exact ⟨Nat.le_refl _, Nat.add_le_add_left (Nat.le_trans hlength hfits.1) _⟩

theorem payloadWrite_inside (key : K) {job : WriteJob K config}
    (hfits : config.Fits job.obj) (offset : ℕ) (outcome : WriteOutcome) :
    (payloadWrite key job offset outcome).Inside config := by
  have hlength := length_outcomeBytes_le outcome (config.padded job.obj.data)
  rw [length_padded] at hlength
  have hpayload := hfits.2
  refine ⟨le_add_right _ _, ?_⟩
  calc offset + config.headerBytes + (outcomeBytes outcome (config.padded job.obj.data)).length
      ≤ offset + config.headerBytes + config.totalLength job.obj.data.length :=
        Nat.add_le_add_left hlength _
    _ ≤ offset + config.slotBytes := by omega

end Lengths

section Writes

variable (h : s.SlotsHeld) {key : K} {job : WriteJob K config} {offset : ℕ}

include h

theorem SlotsHeld.writeHeader (codec : KeyCodec K) (hjob : s.jobs.get? key = some job)
    (hphase : job.phase = .header offset) (outcome : WriteOutcome) :
    (s.writeHeader codec key job offset outcome).SlotsHeld := by
  have hfits : config.Fits job.obj := h.fits key job hjob (by rw [hphase]; rfl)
  have hwritten := h.deviceWrite (headerWrite_inside codec key hfits offset outcome)
  cases outcome with
  | done | failed written => exact hwritten.setPhase hjob (by rw [hphase]; rfl) fun _ => hfits

theorem SlotsHeld.writePayload (hjob : s.jobs.get? key = some job)
    (hphase : job.phase = .payload offset) (outcome : WriteOutcome) :
    (s.writePayload key job offset outcome).SlotsHeld := by
  have hfits : config.Fits job.obj := h.fits key job hjob (by rw [hphase]; rfl)
  have hwritten := h.deviceWrite (payloadWrite_inside key hfits offset outcome)
  cases outcome with
  | done | failed written => exact hwritten.setPhase hjob (by rw [hphase]; rfl) fun _ => hfits

theorem SlotsHeld.release (hjob : s.jobs.get? key = some job) {phase : WritePhase K}
    (hoffset : phase.offset? = none) (hstarted : phase.started = false)
    {index : Dict K BlockEntry} {freeSlots : List ℕ}
    (howned : Owned config [] index (s.inflight.erase key) freeSlots s.nextSlot)
    (hindex : ∀ key', key ≠ key' → index.get? key' = s.index.get? key') (lru : List K) :
    ({ s with
      index := index, inflight := s.inflight.erase key, freeSlots := freeSlots, lru := lru
      }.setPhase key job phase).SlotsHeld := by
  refine ⟨howned, forall_set h.tasks (h.tasks key job hjob), ?_, ?_, ?_, h.inside⟩
  · intro key' job' hjob' offset' hoffset'
    change (s.jobs.set key { job with phase := phase }).get? key' = some job' at hjob'
    change ∃ entry, (s.inflight.erase key).get? key' = some entry ∧ entry.offset = offset'
    rw [get?_set] at hjob'
    rw [get?_erase]
    split at hjob'
    · obtain rfl := some.inj hjob'
      rw [hoffset] at hoffset'
      cases hoffset'
    · next hne =>
      rw [if_neg hne]
      exact h.reserved key' job' hjob' offset' hoffset'
  · intro key' entry' hentry'
    change (s.inflight.erase key).get? key' = some entry' at hentry'
    rw [get?_erase] at hentry'
    split at hentry'
    · cases hentry'
    · next hne =>
      change index.get? key' = none
      rw [hindex key' hne, h.fresh key' entry' hentry']
  · refine forall_set h.fits ?_
    intro hphase
    rw [hstarted] at hphase
    cases hphase

theorem SlotsHeld.complete (hjob : s.jobs.get? key = some job) {failed : Bool}
    (hphase : job.phase = .written offset failed) : (s.complete key job failed).SlotsHeld := by
  have hoffset : ∀ failed : Bool,
      (if failed then WritePhase.finishing else .completed : WritePhase K).offset? = none := by
    intro failed
    cases failed <;> rfl
  have hstarted : ∀ failed : Bool,
      (if failed then WritePhase.finishing else .completed : WritePhase K).started = false := by
    intro failed
    cases failed <;> rfl
  obtain ⟨entry, hinflight, _⟩ := h.reserved key job hjob offset (by rw [hphase]; rfl)
  simp only [RawBlockState.complete, hinflight]
  split
  · exact h.release hjob (hoffset failed) (hstarted failed)
      (h.owned.free_inflight hinflight) (fun _ _ => rfl) s.lru
  · exact h.release hjob (hoffset failed) (hstarted failed)
      (h.owned.settle hinflight (h.fresh key entry hinflight) entry.info)
      (fun key' hne => get?_set_ne _ _ hne) _

end Writes

def Contained (s : RawBlockState K config) : RawBlockEvent K config → Prop
  | .start key =>
      match s.jobs.get? key with
      | some ⟨obj, .queued _⟩ => config.rejects obj = false → config.Fits obj
      | _ => True
  | _ => True

theorem SlotsHeld.exec (h : s.SlotsHeld) (codec : KeyCodec K) {event : RawBlockEvent K config}
    (hcontained : s.Contained event) : (s.exec codec event).SlotsHeld := by
  cases event with
  | submit key obj => exact h.submit key obj
  | reserve key answer =>
    simp only [RawBlockState.exec]
    split
    · next obj hjob => exact h.reserve hjob answer
    · exact h
  | start key =>
    simp only [RawBlockState.exec]
    simp only [Contained] at hcontained
    split
    · next obj offset hjob =>
      rw [hjob] at hcontained
      exact h.startWrite hjob rfl hcontained
    · exact h
  | writeHeader key outcome =>
    simp only [RawBlockState.exec]
    split
    · next obj offset hjob => exact h.writeHeader codec hjob rfl outcome
    · exact h
  | writePayload key outcome =>
    simp only [RawBlockState.exec]
    split
    · next obj offset hjob => exact h.writePayload hjob rfl outcome
    · exact h
  | complete key =>
    simp only [RawBlockState.exec]
    split
    · next obj offset failed hjob => exact h.complete hjob rfl
    · exact h
  | saveManifest key =>
    simp only [RawBlockState.exec]
    split
    · next obj hjob =>
      have hcounted : ∀ n, { s with writesSinceManifestSave := n }.SlotsHeld := fun _ =>
        ⟨h.owned, h.tasks, h.reserved, h.fresh, h.fits, h.inside⟩
      rw [maybeSaveManifest]
      split
      · exact h.setPhase hjob rfl fun hstarted => by cases hstarted
      · split
        · exact (hcounted 0).setPhase hjob rfl fun hstarted => by cases hstarted
        · exact (hcounted (s.writesSinceManifestSave + 1)).setPhase hjob rfl fun hstarted => by cases hstarted
    · exact h
  | replaceManifest key saved =>
    simp only [RawBlockState.exec]
    split
    · next obj snapshot hjob =>
      have hreplaced : ∀ manifest, { s with manifest := manifest }.SlotsHeld := fun _ =>
        ⟨h.owned, h.tasks, h.reserved, h.fresh, h.fits, h.inside⟩
      exact (hreplaced (if saved then some snapshot else s.manifest)).setPhase hjob rfl
        fun hstarted => by cases hstarted
    · exact h
  | finish key =>
    simp only [RawBlockState.exec]
    split
    · exact h.discardPut key
    · exact h
  | remove key => exact h.removeKey key
  | contains holder key pin =>
    simp only [RawBlockState.exec, pinKey]
    split
    · split
      · exact ⟨h.owned, h.tasks, h.reserved, h.fresh, h.fits, h.inside⟩
      · exact h
    · exact h
  | pin holder key =>
    simp only [RawBlockState.exec, pinKey]
    split
    · exact ⟨h.owned, h.tasks, h.reserved, h.fresh, h.fits, h.inside⟩
    · exact h
  | unpin holder key => exact ⟨h.owned, h.tasks, h.reserved, h.fresh, h.fits, h.inside⟩
  | lookup reader key =>
    simp only [RawBlockState.exec, lookup]
    split
    · exact h
    · split
      · exact ⟨h.owned, h.tasks, h.reserved, h.fresh, h.fits, h.inside⟩
      · exact h
  | read reader buffer =>
    simp only [RawBlockState.exec, readPayload]
    split
    · split
      · split
        · exact ⟨h.owned, h.tasks, h.reserved, h.fresh, h.fits, h.inside⟩
        · exact ⟨h.owned, h.tasks, h.reserved, h.fresh, h.fits, h.inside⟩
      · exact h
    · exact h
  | readFails reader | touch reader =>
    simp only [RawBlockState.exec]
    split
    · exact ⟨h.owned, h.tasks, h.reserved, h.fresh, h.fits, h.inside⟩
    · exact h

end RawBlockState

end LMCache.RawBlock
