import LMCache.RawBlock.SlotsHeld

namespace LMCache.RawBlock

open Utils Protocol Dict ByteDevice List Option

section Entries

variable {K : Type} (config : RawBlockConfig)

structure EntrySound (device : ℕ → UInt8) (stored : List (K × List UInt8)) (key : K)
    (entry : BlockEntry) : Prop where
  agrees : entry.size = entry.info.size
  size : entry.info.size = config.physicalSize entry.info.shape entry.info.dtype entry.info.fmt
  fits : config.headerBytes + entry.info.size ≤ config.slotBytes
  data : (key, read device (entry.offset + config.headerBytes) entry.info.size) ∈ stored

def DeviceWrite.Spares (w : DeviceWrite K) (key : K) (entry : BlockEntry) : Prop :=
  w.start + w.bytes.length ≤ entry.offset + config.headerBytes ∨
    entry.offset + config.headerBytes + entry.info.size ≤ w.start ∨
    w.key = key ∧ w.start = entry.offset + config.headerBytes ∧
      w.payload.map length = some entry.info.size

instance [DecidableEq K] (w : DeviceWrite K) (key : K) (entry : BlockEntry) :
    Decidable (w.Spares config key entry) :=
  inferInstanceAs (Decidable (_ ∨ _))

def DeviceWrite.Carries (stored : List (K × List UInt8)) (w : DeviceWrite K) : Prop :=
  ∀ data, w.payload = some data →
    (w.key, data) ∈ stored ∧ ∃ padding, w.bytes = data ++ padding

variable {config} {device : ℕ → UInt8} {stored stored' : List (K × List UInt8)} {key : K}
  {entry : BlockEntry} {w : DeviceWrite K}

theorem EntrySound.mono (h : EntrySound config device stored key entry)
    (hsub : ∀ r ∈ stored, r ∈ stored') : EntrySound config device stored' key entry :=
  ⟨h.agrees, h.size, h.fits, hsub _ h.data⟩

theorem EntrySound.write (h : EntrySound config device stored key entry)
    (hspares : w.Spares config key entry) (hcarries : w.Carries stored) :
    EntrySound config (write device w.start w.bytes) stored key entry := by
  refine ⟨h.agrees, h.size, h.fits, ?_⟩
  rcases hspares with hbelow | habove | ⟨rfl, hstart, hlength⟩
  · rw [read_write_apart device (Or.inl hbelow)]
    exact h.data
  · rw [read_write_apart device (Or.inr habove)]
    exact h.data
  · cases hpayload : w.payload with
    | none =>
      rw [hpayload] at hlength
      cases hlength
    | some data =>
      obtain ⟨hmem, padding, hbytes⟩ := hcarries data hpayload
      rw [hpayload] at hlength
      rw [← some.inj hlength, ← hstart, hbytes, read_write_self]
      exact hmem

theorem spares_of_apart {offset : ℕ} (hinside : w.Inside config) (hslot : w.slotOffset = offset)
    (hfits : config.headerBytes + entry.info.size ≤ config.slotBytes)
    (hapart : offset + config.slotBytes ≤ entry.offset ∨
      entry.offset + config.slotBytes ≤ offset) : w.Spares config key entry := by
  obtain ⟨hstart, hend⟩ := hinside
  rw [hslot] at hstart hend
  rcases hapart with hbelow | habove
  · exact Or.inl (by omega)
  · exact Or.inr (Or.inl (by omega))

variable [DecidableEq K] (config)

structure SnapshotSound (device : ℕ → UInt8) (stored : List (K × List UInt8))
    (deviceWrites : List (DeviceWrite K)) (snapshot : Snapshot K) : Prop where
  seen : snapshot.deviceWrites ≤ deviceWrites.length
  owned : Owned config [] snapshot.index snapshot.inflight snapshot.freeSlots snapshot.nextSlot
  data : ∀ key entry, snapshot.index.get? key = some entry →
    (∀ w ∈ deviceWrites.drop snapshot.deviceWrites, w.Spares config key entry) →
    EntrySound config device stored key entry

variable {config} {deviceWrites : List (DeviceWrite K)} {snapshot : Snapshot K}

theorem SnapshotSound.mono (h : SnapshotSound config device stored deviceWrites snapshot)
    (hsub : ∀ r ∈ stored, r ∈ stored') :
    SnapshotSound config device stored' deviceWrites snapshot :=
  ⟨h.seen, h.owned, fun key entry hget hspares => (h.data key entry hget hspares).mono hsub⟩

theorem SnapshotSound.write (h : SnapshotSound config device stored deviceWrites snapshot)
    (hcarries : w.Carries stored) :
    SnapshotSound config (write device w.start w.bytes) stored (deviceWrites ++ [w])
      snapshot := by
  refine ⟨?_, h.owned, ?_⟩
  · rw [length_append]
    exact Nat.le_add_right_of_le h.seen
  · intro key entry hget hspares
    rw [drop_append_of_le_length h.seen] at hspares
    refine (h.data key entry hget fun w' hw' => ?_).write ?_ hcarries
    · exact hspares w' (mem_append_left _ hw')
    · exact hspares w (mem_append_right _ (mem_singleton_self w))

end Entries

namespace RawBlockState

variable {K : Type} [DecidableEq K] {config : RawBlockConfig} {s : RawBlockState K config}

structure DataSound (s : RawBlockState K config) : Prop where
  reserved : ∀ key job, s.jobs.get? key = some job → ∀ offset, job.phase.offset? = some offset →
    (key, job.obj.data) ∈ s.stored ∧
      ∀ entry, s.inflight.get? key = some entry → entry.info = job.obj.info
  written : ∀ key job, s.jobs.get? key = some job → ∀ offset,
    job.phase = .written offset false →
      read s.device (offset + config.headerBytes) job.obj.data.length = job.obj.data
  indexed : ∀ key entry, s.index.get? key = some entry →
    EntrySound config s.device s.stored key entry
  readers : ∀ reader r, s.readers.get? reader = some r → r.fetched = false →
    EntrySound config s.device s.stored r.key r.entry
  saving : ∀ key job, s.jobs.get? key = some job → ∀ snapshot, job.phase = .saving snapshot →
    SnapshotSound config s.device s.stored s.deviceWrites snapshot
  manifest : ∀ snapshot, s.manifest = some snapshot →
    SnapshotSound config s.device s.stored s.deviceWrites snapshot
  returned : ∀ r ∈ s.returned, r ∈ s.stored

theorem DataSound.start (device : ℕ → UInt8) :
    (RawBlockState.start config device : RawBlockState K config).DataSound where
  reserved := fun _ _ h => nomatch h
  written := fun _ _ h => nomatch h
  indexed := fun _ _ h => nomatch h
  readers := fun _ _ h => nomatch h
  saving := fun _ _ h => nomatch h
  manifest := fun _ h => nomatch h
  returned := fun _ h => nomatch h

section Steps

variable (h : s.DataSound) {key : K} {job : WriteJob K config}

include h

theorem DataSound.evict (victim : K) (entry : BlockEntry) : (s.evict victim entry).DataSound where
  reserved := h.reserved
  written := h.written
  indexed := forall_erase h.indexed victim
  readers := h.readers
  saving := h.saving
  manifest := h.manifest
  returned := h.returned

theorem DataSound.setPhase {phase : WritePhase K} (hjob : s.jobs.get? key = some job)
    (hoffset : ∀ offset, phase.offset? = some offset → job.phase.offset? = some offset)
    (hwritten : ∀ offset, phase = .written offset false →
      read s.device (offset + config.headerBytes) job.obj.data.length = job.obj.data)
    (hsaving : ∀ snapshot, phase = .saving snapshot →
      SnapshotSound config s.device s.stored s.deviceWrites snapshot) :
    (s.setPhase key job phase).DataSound where
  reserved := by
    refine forall_set h.reserved ?_
    intro offset hphase
    exact h.reserved key job hjob offset (hoffset offset hphase)
  written := forall_set h.written hwritten
  indexed := h.indexed
  readers := h.readers
  saving := forall_set h.saving hsaving
  manifest := h.manifest
  returned := h.returned

theorem DataSound.submit (key : K) (obj : ChunkObj config) : (s.submit key obj).DataSound := by
  rw [RawBlockState.submit]
  split
  · exact h
  · refine ⟨?_, ?_, h.indexed, h.readers, ?_, h.manifest, h.returned⟩
    · exact forall_set h.reserved fun _ hoffset => by cases hoffset
    · exact forall_set h.written fun _ hphase => by cases hphase
    · exact forall_set h.saving fun _ hphase => by cases hphase

theorem DataSound.dropJob (key : K) (putTasks : Finset K) :
    { s with putTasks := putTasks, jobs := s.jobs.erase key }.DataSound where
  reserved := forall_erase h.reserved key
  written := forall_erase h.written key
  indexed := h.indexed
  readers := h.readers
  saving := forall_erase h.saving key
  manifest := h.manifest
  returned := h.returned

theorem DataSound.removeKey (key : K) : (s.removeKey key).DataSound := by
  refine ⟨?_, h.written, forall_erase h.indexed key, h.readers, h.saving, h.manifest, h.returned⟩
  intro key' job' hjob' offset hoffset
  obtain ⟨hstored, hinfo⟩ := h.reserved key' job' hjob' offset hoffset
  refine ⟨hstored, ?_⟩
  intro entry hentry
  cases hinflight : s.inflight.get? key with
  | none =>
    simp only [RawBlockState.removeKey, hinflight] at hentry
    exact hinfo entry hentry
  | some entry' =>
    simp only [RawBlockState.removeKey, hinflight] at hentry
    rw [get?_set] at hentry
    split at hentry
    · next heq =>
      obtain rfl := some.inj hentry
      exact hinfo entry' (heq ▸ hinflight)
    · exact hinfo entry hentry

variable {offset : ℕ}

theorem DataSound.occupy {s' : RawBlockState K config} (htaken : Taken s offset s')
    (obj : ChunkObj config) :
    { s' with
      inflight := s'.inflight.set key ⟨offset, obj.info, false⟩
      jobs := s'.jobs.set key ⟨obj, .queued offset⟩
      stored := s'.stored ++ [(key, obj.data)] }.DataSound := by
  have hs' : s'.DataSound := by
    cases htaken with
    | reuse slot rest hfree | extend =>
      exact ⟨h.reserved, h.written, h.indexed, h.readers, h.saving, h.manifest, h.returned⟩
  have hsub : ∀ r ∈ s'.stored, r ∈ s'.stored ++ [(key, obj.data)] := fun _ hr =>
    mem_append_left _ hr
  refine ⟨?_, ?_, ?_, ?_, ?_, ?_, ?_⟩
  · intro key' job' hjob' offset' hoffset'
    dsimp only at hjob' ⊢
    rw [get?_set] at hjob'
    split at hjob'
    · next heq =>
      obtain rfl := some.inj hjob'
      subst heq
      refine ⟨mem_append_right _ (mem_singleton_self _), ?_⟩
      intro entry hentry
      rw [get?_set_self] at hentry
      rw [← some.inj hentry]
    · next hne =>
      rw [get?_set_ne _ _ hne]
      obtain ⟨hstored, hinfo⟩ := hs'.reserved key' job' hjob' offset' hoffset'
      exact ⟨hsub _ hstored, hinfo⟩
  · exact forall_set hs'.written fun _ hphase => by cases hphase
  · exact fun key' entry hentry => (hs'.indexed key' entry hentry).mono hsub
  · exact fun reader r hr hfetched => (hs'.readers reader r hr hfetched).mono hsub
  · refine forall_set (fun key' job' hjob' snapshot hphase => ?_) fun _ hphase => by cases hphase
    exact (hs'.saving key' job' hjob' snapshot hphase).mono hsub
  · exact fun snapshot hmanifest => (hs'.manifest snapshot hmanifest).mono hsub
  · exact fun r hr => hsub r (hs'.returned r hr)

theorem DataSound.reserve (obj : ChunkObj config) (answer : SizeAnswer) :
    (s.reserve key ⟨obj, .checked⟩ answer).DataSound := by
  rw [RawBlockState.reserve]
  split
  · exact h.dropJob key _
  · have hkeeps := reserveSlot_keeps (s := s) (P := DataSound)
      (fun _ _ _ h₁ => ⟨h₁.reserved, h₁.written, h₁.indexed, h₁.readers, h₁.saving, h₁.manifest,
        h₁.returned⟩)
      (fun _ _ h₁ => ⟨h₁.reserved, h₁.written, h₁.indexed, h₁.readers, h₁.saving, h₁.manifest,
        h₁.returned⟩)
      (fun _ victim entry h₁ _ _ _ => h₁.evict victim entry) answer (s.lru.length + 1) h
    rcases hkeeps with ⟨offset, s', s₀, hslot, hs₀, htaken⟩ | ⟨s', hs', herror | ⟨herror, _⟩⟩
    · rw [hslot]
      exact hs₀.occupy htaken obj
    · rw [herror]
      exact hs'.dropJob key _
    · rw [herror]
      exact hs'.dropJob key _

theorem DataSound.deviceWrite (hheld : s.SlotsHeld) (hjob : s.jobs.get? key = some job)
    {w : DeviceWrite K} (hoffset : job.phase.offset? = some w.slotOffset)
    (hwriting : ∀ offset, job.phase ≠ .written offset false) (hinside : w.Inside config)
    (hcarries : w.Carries s.stored)
    (hspares : ∀ reader r, s.readers.get? reader = some r → r.fetched = false →
      w.Spares config r.key r.entry) : (s.deviceWrite w).DataSound := by
  obtain ⟨entry, hentry, hslot⟩ := hheld.reserved key job hjob _ hoffset
  refine ⟨h.reserved, ?_, ?_, ?_, ?_, ?_, h.returned⟩
  · intro key' job' hjob' offset hphase
    have hwritten := h.written key' job' hjob' offset hphase
    have hfits := (hheld.fits key' job' hjob' (by rw [hphase]; rfl)).2
    have hlength := le_totalLength config job'.obj.data.length
    obtain ⟨entry', hentry', rfl⟩ :=
      hheld.reserved key' job' hjob' offset (by rw [hphase]; rfl)
    have hne : key' ≠ key := by
      rintro rfl
      obtain rfl := some.inj (hjob.symm.trans hjob')
      exact hwriting entry'.offset hphase
    have hapart := hheld.apart_inflight hentry hentry' hne
    obtain ⟨hstart, hend⟩ := hinside
    refine (read_write_apart s.device ?_).trans hwritten
    omega
  · intro key' entry' hentry'
    have hsound := h.indexed key' entry' hentry'
    exact hsound.write (spares_of_apart hinside hslot.symm hsound.fits
      (hheld.apart_index hentry hentry')) hcarries
  · intro reader r hr hfetched
    exact (h.readers reader r hr hfetched).write (hspares reader r hr hfetched) hcarries
  · intro key' job' hjob' snapshot hphase
    exact (h.saving key' job' hjob' snapshot hphase).write hcarries
  · intro snapshot hmanifest
    exact (h.manifest snapshot hmanifest).write hcarries

variable {obj : ChunkObj config}

theorem DataSound.writeHeader (hheld : s.SlotsHeld) (codec : KeyCodec K)
    (hjob : s.jobs.get? key = some ⟨obj, .header offset⟩) (outcome : WriteOutcome)
    (hspares : ∀ reader r, s.readers.get? reader = some r → r.fetched = false →
      (headerWrite codec key ⟨obj, .header offset⟩ offset outcome).Spares config r.key r.entry) :
    (s.writeHeader codec key ⟨obj, .header offset⟩ offset outcome).DataSound := by
  have hwritten := h.deviceWrite hheld hjob (w := headerWrite codec key _ offset outcome) rfl
    (fun _ hphase => by cases hphase)
    (headerWrite_inside codec key (hheld.fits key _ hjob rfl) offset outcome)
    (fun _ hpayload => by cases hpayload) hspares
  cases outcome with
  | done | failed written =>
    exact hwritten.setPhase hjob (fun _ hphase => hphase) (fun _ hphase => by cases hphase)
      fun _ hphase => by cases hphase

theorem DataSound.writePayload (hheld : s.SlotsHeld)
    (hjob : s.jobs.get? key = some ⟨obj, .payload offset⟩) (outcome : WriteOutcome)
    (hspares : ∀ reader r, s.readers.get? reader = some r → r.fetched = false →
      (payloadWrite key ⟨obj, .payload offset⟩ offset outcome).Spares config r.key r.entry) :
    (s.writePayload key ⟨obj, .payload offset⟩ offset outcome).DataSound := by
  have hcarries :
      (payloadWrite key ⟨obj, .payload offset⟩ offset outcome).Carries s.stored := by
    intro data hpayload
    cases outcome with
    | done =>
      obtain rfl := some.inj hpayload
      exact ⟨(h.reserved key _ hjob offset rfl).1, _, rfl⟩
    | failed written => cases hpayload
  have hwritten := h.deviceWrite hheld hjob (w := payloadWrite key _ offset outcome) rfl
    (fun _ hphase => by cases hphase)
    (payloadWrite_inside key (hheld.fits key _ hjob rfl) offset outcome) hcarries hspares
  cases outcome with
  | done =>
    refine hwritten.setPhase hjob (fun _ hphase => hphase) ?_ fun _ hphase => by cases hphase
    intro offset' hphase
    cases hphase
    exact read_write_self _ _ _ _
  | failed written =>
    exact hwritten.setPhase hjob (fun _ hphase => hphase) (fun _ hphase => by cases hphase)
      fun _ hphase => by cases hphase

theorem DataSound.entrySound (hheld : s.SlotsHeld) {entry : Inflight}
    (hjob : s.jobs.get? key = some ⟨obj, .written entry.offset false⟩)
    (hinflight : s.inflight.get? key = some entry) :
    EntrySound config s.device s.stored key ⟨entry.offset, entry.info.size, entry.info⟩ := by
  obtain ⟨hstored, hinfo⟩ := h.reserved key _ hjob entry.offset rfl
  have hfits := (hheld.fits key _ hjob rfl).2
  have hlength := le_totalLength config obj.data.length
  have hinfo : entry.info = obj.info := hinfo entry hinflight
  have hsize : entry.info.size = obj.data.length := by rw [hinfo]; rfl
  refine ⟨rfl, ?_, ?_, ?_⟩
  · rw [hinfo]
    exact obj.length_data
  · dsimp only at hfits ⊢
    omega
  · dsimp only
    rw [hsize, h.written key _ hjob entry.offset rfl]
    exact hstored

theorem DataSound.complete (hheld : s.SlotsHeld) {failed : Bool}
    (hjob : s.jobs.get? key = some ⟨obj, .written offset failed⟩) :
    (s.complete key ⟨obj, .written offset failed⟩ failed).DataSound := by
  have hreleased : ∀ phase : WritePhase K, phase.offset? = none →
      (∀ snapshot, phase ≠ .saving snapshot) → ∀ index : Dict K BlockEntry,
      (∀ key entry, index.get? key = some entry →
        EntrySound config s.device s.stored key entry) → ∀ freeSlots lru,
      ({ s with
        index := index, inflight := s.inflight.erase key, freeSlots := freeSlots, lru := lru
        }.setPhase key ⟨obj, .written offset failed⟩ phase).DataSound := by
    intro phase hoffset hsaving index hindex freeSlots lru
    refine DataSound.setPhase (s := { s with
      index := index, inflight := s.inflight.erase key, freeSlots := freeSlots, lru := lru })
      ⟨?_, h.written, hindex, h.readers, h.saving, h.manifest, h.returned⟩ hjob ?_ ?_ ?_
    · intro key' job' hjob' offset' hphase
      obtain ⟨hstored, hinfo⟩ := h.reserved key' job' hjob' offset' hphase
      refine ⟨hstored, fun entry hentry => hinfo entry ?_⟩
      rw [get?_erase] at hentry
      split at hentry
      · cases hentry
      · exact hentry
    · intro offset' hphase
      rw [hoffset] at hphase
      cases hphase
    · intro offset' hphase
      rw [hphase] at hoffset
      cases hoffset
    · intro snapshot hphase
      exact absurd hphase (hsaving snapshot)
  obtain ⟨entry, hinflight, rfl⟩ := hheld.reserved key _ hjob offset rfl
  simp only [RawBlockState.complete, hinflight]
  cases failed with
  | true =>
    simp only [Bool.or_true, if_true]
    exact hreleased .finishing rfl (fun _ hphase => by cases hphase) s.index h.indexed _ _
  | false =>
    simp only [Bool.or_false, Bool.false_eq_true, if_false]
    split
    · exact hreleased .completed rfl (fun _ hphase => by cases hphase) s.index h.indexed _ _
    · exact hreleased .completed rfl (fun _ hphase => by cases hphase) _
        (forall_set h.indexed (h.entrySound hheld hjob hinflight)) _ _

theorem DataSound.saveManifest (hheld : s.SlotsHeld)
    (hjob : s.jobs.get? key = some ⟨obj, .completed⟩) :
    (s.maybeSaveManifest key ⟨obj, .completed⟩).DataSound := by
  have hcounted : ∀ n, { s with writesSinceManifestSave := n }.DataSound := fun _ =>
    ⟨h.reserved, h.written, h.indexed, h.readers, h.saving, h.manifest, h.returned⟩
  rw [maybeSaveManifest]
  split
  · exact h.setPhase hjob (fun _ hphase => by cases hphase) (fun _ hphase => by cases hphase)
      fun _ hphase => by cases hphase
  · split
    · refine (hcounted 0).setPhase hjob (fun _ hphase => by cases hphase)
        (fun _ hphase => by cases hphase) fun snapshot hphase => ?_
      cases hphase
      exact ⟨Nat.le_refl _, hheld.owned, fun key entry hget _ => h.indexed key entry hget⟩
    · exact (hcounted (s.writesSinceManifestSave + 1)).setPhase hjob
        (fun _ hphase => by cases hphase) (fun _ hphase => by cases hphase)
        fun _ hphase => by cases hphase

theorem DataSound.replaceManifest {snapshot : Snapshot K}
    (hjob : s.jobs.get? key = some ⟨obj, .saving snapshot⟩) (saved : Bool) :
    ({ s with manifest := if saved then some snapshot else s.manifest }.setPhase
      key ⟨obj, .saving snapshot⟩ .finishing).DataSound := by
  have hreplaced :
      { s with manifest := if saved then some snapshot else s.manifest }.DataSound := by
    refine ⟨h.reserved, h.written, h.indexed, h.readers, h.saving, ?_, h.returned⟩
    intro snapshot' hmanifest
    cases saved with
    | true =>
      obtain rfl := some.inj hmanifest
      exact h.saving key _ hjob _ rfl
    | false => exact h.manifest snapshot' hmanifest
  exact hreplaced.setPhase hjob (fun _ hphase => by cases hphase)
    (fun _ hphase => by cases hphase) fun _ hphase => by cases hphase

theorem DataSound.lookup (reader : ℕ) (key : K) : (s.lookup reader key).DataSound := by
  rw [RawBlockState.lookup]
  split
  · next entry hget =>
    refine ⟨h.reserved, h.written, h.indexed, ?_, h.saving, h.manifest, h.returned⟩
    exact forall_set h.readers fun _ => h.indexed key entry hget
  · exact h

theorem DataSound.dropReader (reader : ℕ) :
    { s with readers := s.readers.erase reader }.DataSound :=
  ⟨h.reserved, h.written, h.indexed, forall_erase h.readers reader, h.saving, h.manifest,
    h.returned⟩

theorem DataSound.readPayload {reader : ℕ} {entry : BlockEntry}
    (hreader : s.readers.get? reader = some ⟨key, entry, false⟩) {buffer : List UInt8}
    (hbuffer : buffer.length =
      config.physicalSize entry.info.shape entry.info.dtype entry.info.fmt) :
    (s.readPayload reader ⟨key, entry, false⟩ buffer).DataSound := by
  have hsound := h.readers reader _ hreader rfl
  have hwhole : buffer.drop entry.info.size = [] := by
    rw [drop_eq_nil_iff, hbuffer, hsound.size]
  rw [RawBlockState.readPayload]
  split
  · exact h.dropReader reader
  · refine ⟨h.reserved, h.written, h.indexed, ?_, h.saving, h.manifest, ?_⟩
    · exact forall_set h.readers fun hfetched => by cases hfetched
    · intro r hr
      rcases mem_append.mp hr with hold | hnew
      · exact h.returned r hold
      · rw [mem_singleton.mp hnew]
        dsimp only
        rw [hwhole, append_nil]
        exact hsound.data

end Steps

def nextWrite (codec : KeyCodec K) (s : RawBlockState K config) :
    RawBlockEvent K config → Option (DeviceWrite K)
  | .writeHeader key outcome =>
      match s.jobs.get? key with
      | some ⟨obj, .header offset⟩ =>
          some (headerWrite codec key ⟨obj, .header offset⟩ offset outcome)
      | _ => none
  | .writePayload key outcome =>
      match s.jobs.get? key with
      | some ⟨obj, .payload offset⟩ =>
          some (payloadWrite key ⟨obj, .payload offset⟩ offset outcome)
      | _ => none
  | _ => none

def ReadersSpared (codec : KeyCodec K) (s : RawBlockState K config)
    (event : RawBlockEvent K config) : Prop :=
  ∀ w ∈ (s.nextWrite codec event).toList, ∀ r ∈ s.readers.values, r.fetched = false →
    w.Spares config r.key r.entry

instance (codec : KeyCodec K) (s : RawBlockState K config) (event : RawBlockEvent K config) :
    Decidable (s.ReadersSpared codec event) :=
  inferInstanceAs (Decidable (∀ w ∈ (s.nextWrite codec event).toList, _))

variable {event : RawBlockEvent K config}

theorem ReadersSpared.spares {codec : KeyCodec K} (h : s.ReadersSpared codec event)
    {w : DeviceWrite K} (hnext : s.nextWrite codec event = some w) (reader : ℕ) (r : Reader K)
    (hr : s.readers.get? reader = some r) (hfetched : r.fetched = false) :
    w.Spares config r.key r.entry := by
  refine h w ?_ r ((mem_values_iff s.readers r).mpr ⟨reader, hr⟩) hfetched
  rw [hnext]
  exact mem_singleton_self w

theorem DataSound.exec (h : s.DataSound) (hheld : s.SlotsHeld) (codec : KeyCodec K)
    (hspared : s.ReadersSpared codec event) :
    (s.exec codec event).DataSound := by
  cases event with
  | submit key obj => exact h.submit key obj
  | reserve key answer =>
    simp only [RawBlockState.exec]
    split
    · next obj hjob => exact h.reserve obj answer
    · exact h
  | start key =>
    simp only [RawBlockState.exec]
    split
    · next obj offset hjob =>
      rw [startWrite]
      split
      · exact h.dropJob key _
      · exact h.setPhase hjob (fun _ hphase => hphase) (fun _ hphase => by cases hphase)
          fun _ hphase => by cases hphase
    · exact h
  | writeHeader key outcome =>
    simp only [RawBlockState.exec]
    split
    · next obj offset hjob =>
      refine h.writeHeader hheld codec hjob outcome (hspared.spares ?_)
      rw [nextWrite, hjob]
    · exact h
  | writePayload key outcome =>
    simp only [RawBlockState.exec]
    split
    · next obj offset hjob =>
      refine h.writePayload hheld hjob outcome (hspared.spares ?_)
      rw [nextWrite, hjob]
    · exact h
  | complete key =>
    simp only [RawBlockState.exec]
    split
    · next obj offset failed hjob => exact h.complete hheld hjob
    · exact h
  | saveManifest key =>
    simp only [RawBlockState.exec]
    split
    · next obj hjob => exact h.saveManifest hheld hjob
    · exact h
  | replaceManifest key saved =>
    simp only [RawBlockState.exec]
    split
    · next obj snapshot hjob => exact h.replaceManifest hjob saved
    · exact h
  | finish key =>
    simp only [RawBlockState.exec]
    split
    · exact h.dropJob key _
    · exact h
  | remove key => exact h.removeKey key
  | contains holder key pin =>
    simp only [RawBlockState.exec, pinKey]
    split
    · split
      · exact ⟨h.reserved, h.written, h.indexed, h.readers, h.saving, h.manifest, h.returned⟩
      · exact h
    · exact h
  | pin holder key =>
    simp only [RawBlockState.exec, pinKey]
    split
    · exact ⟨h.reserved, h.written, h.indexed, h.readers, h.saving, h.manifest, h.returned⟩
    · exact h
  | unpin holder key =>
    exact ⟨h.reserved, h.written, h.indexed, h.readers, h.saving, h.manifest, h.returned⟩
  | lookup reader key =>
    simp only [RawBlockState.exec]
    split
    · exact h
    · exact h.lookup reader key
  | read reader buffer =>
    simp only [RawBlockState.exec]
    split
    · next key entry hreader =>
      split
      · next hbuffer => exact h.readPayload hreader hbuffer
      · exact h
    · exact h
  | readFails reader =>
    simp only [RawBlockState.exec]
    split
    · exact h.dropReader reader
    · exact h
  | touch reader =>
    simp only [RawBlockState.exec]
    split
    · have hdropped := h.dropReader reader
      exact ⟨hdropped.reserved, hdropped.written, hdropped.indexed, hdropped.readers,
        hdropped.saving, hdropped.manifest, hdropped.returned⟩
    · exact h

end RawBlockState

end LMCache.RawBlock
