import LMCache.RawBlock.Manifest
import LMCache.RawBlock.Reads

namespace LMCache.RawBlock

open Utils Protocol Text Execution RawBlockState

inductive LifeEvent (K : Type) (config : RawBlockConfig) where
  | op (event : RawBlockEvent K config)
  | restart

namespace RawBlockState

variable {K : Type} [DecidableEq K] {config : RawBlockConfig} {s : RawBlockState K config}
  {codec : KeyCodec K}

def live (codec : KeyCodec K) (s : RawBlockState K config) :
    LifeEvent K config → RawBlockState K config
  | .op event => s.exec codec event
  | .restart => s.restart codec

structure Restorable (codec : KeyCodec K) (s : RawBlockState K config) (snapshot : Snapshot K) :
    Prop where
  idle : snapshot.inflight.items = []
  readable : ∀ item ∈ snapshot.index.items, Readable codec item.1 item.2
  untouched : ∀ item ∈ snapshot.index.items,
    ∀ w ∈ s.deviceWrites.drop snapshot.deviceWrites, w.Spares config item.1 item.2

def Recoverable (codec : KeyCodec K) (s : RawBlockState K config) : LifeEvent K config → Prop
  | .op event => s.Contained event ∧ s.ReadersSpared codec event
  | .restart => ∀ snapshot, s.manifest = some snapshot → s.Restorable codec snapshot

section Restart

theorem loadManifest_saveManifest (s : RawBlockState K config) (snapshot : Snapshot K) :
    s.loadManifest codec (saveManifest codec config snapshot) =
      { s with
        capacityBytes := snapshot.capacityBytes
        nextSlot := snapshot.nextSlot
        freeSlots := snapshot.freeSlots
        index := restoreIndex codec (saveManifest codec config snapshot)
        lru := restoreLru codec (saveManifest codec config snapshot)
          (restoreIndex codec (saveManifest codec config snapshot)) } := by
  rw [loadManifest, if_neg, if_neg]
  · rfl
  · exact fun h => h rfl
  · exact fun h => h.2 rfl

variable {snapshot : Snapshot K}

theorem Restorable.entrySound (h : s.Restorable codec snapshot)
    (hsound : SnapshotSound config s.device s.stored s.deviceWrites snapshot) :
    ∀ key entry, snapshot.index.get? key = some entry →
      EntrySound config s.device s.stored key entry := by
  intro key entry hget
  exact hsound.data key entry hget
    (h.untouched (key, entry) ((Dict.get?_eq_some_iff snapshot.index key entry).mp hget))

theorem Restorable.restoreIndex (h : s.Restorable codec snapshot)
    (hsound : SnapshotSound config s.device s.stored s.deviceWrites snapshot) :
    RawBlock.restoreIndex codec (saveManifest codec config snapshot) = snapshot.index := by
  refine restoreIndex_saveManifest ?_ fun key entry hget =>
    (h.entrySound hsound key entry hget).agrees
  intro key entry hget
  exact h.readable (key, entry) ((Dict.get?_eq_some_iff snapshot.index key entry).mp hget)

theorem Restorable.owned (h : s.Restorable codec snapshot)
    (hsound : SnapshotSound config s.device s.stored s.deviceWrites snapshot) :
    Owned config [] snapshot.index Dict.empty snapshot.freeSlots snapshot.nextSlot := by
  have howned := hsound.owned
  have hidle : snapshot.inflight = Dict.empty := Dict.eq_of_items h.idle
  rw [hidle] at howned
  exact howned

theorem SlotsHeld.crash (h : s.SlotsHeld) : s.crash.SlotsHeld where
  owned := .refl _
  tasks := fun _ _ h => nomatch h
  reserved := fun _ _ h => nomatch h
  fresh := fun _ _ h => nomatch h
  fits := fun _ _ h => nomatch h
  inside := h.inside

theorem DataSound.crash (h : s.DataSound) : s.crash.DataSound where
  reserved := fun _ _ h => nomatch h
  written := fun _ _ h => nomatch h
  indexed := fun _ _ h => nomatch h
  readers := fun _ _ h => nomatch h
  saving := fun _ _ h => nomatch h
  manifest := h.manifest
  returned := h.returned

theorem SlotsHeld.restart (h : s.SlotsHeld) (hdata : s.DataSound)
    (hrecoverable : s.Recoverable codec .restart) : (s.restart codec).SlotsHeld := by
  have hcrash := h.crash
  rw [RawBlockState.restart]
  split
  · exact hcrash
  · next snapshot hmanifest =>
    have hsound := hdata.manifest snapshot hmanifest
    have hrestorable := hrecoverable snapshot hmanifest
    rw [loadManifest_saveManifest, hrestorable.restoreIndex hsound]
    exact ⟨hrestorable.owned hsound, hcrash.tasks, hcrash.reserved, (fun _ _ h => by cases h),
      hcrash.fits, hcrash.inside⟩

theorem DataSound.restart (h : s.DataSound) (hrecoverable : s.Recoverable codec .restart) :
    (s.restart codec).DataSound := by
  have hcrash := h.crash
  rw [RawBlockState.restart]
  split
  · exact hcrash
  · next snapshot hmanifest =>
    have hsound := h.manifest snapshot hmanifest
    have hrestorable := hrecoverable snapshot hmanifest
    rw [loadManifest_saveManifest, hrestorable.restoreIndex hsound]
    exact ⟨hcrash.reserved, hcrash.written, hrestorable.entrySound hsound, hcrash.readers,
      hcrash.saving, hcrash.manifest, hcrash.returned⟩

end Restart

def Restored (codec : KeyCodec K) (s : RawBlockState K config) : LifeEvent K config → Prop
  | .op _ => True
  | .restart =>
      (∀ snapshot, s.manifest = some snapshot → (s.restart codec).index = snapshot.index) ∧
        ∀ slot < (s.restart codec).nextSlot,
          (s.restart codec).freeSlots.count slot +
            ((s.restart codec).index.values.map BlockEntry.offset).count
              (slotOffset config slot) = 1

structure Recovered (s : RawBlockState K config) : Prop where
  returned : ∀ r ∈ s.returned, r ∈ s.stored
  apart : ∀ key key' entry entry', s.index.get? key = some entry →
    s.index.get? key' = some entry' → entry.offset = entry'.offset → key = key'
  oneOwner : ∀ slot < s.nextSlot, s.ownerCount slot = 1

theorem SlotsHeld.apart (h : s.SlotsHeld) {key key' : K} {entry entry' : BlockEntry}
    (hentry : s.index.get? key = some entry) (hentry' : s.index.get? key' = some entry')
    (heq : entry.offset = entry'.offset) : key = key' := by
  have hnodup := h.owned.nodup
  rw [List.nil_append, List.nodup_append, List.nodup_append] at hnodup
  exact Dict.eq_of_nodup_map_values hnodup.1.2.1 hentry hentry' heq

theorem inflight_restart (s : RawBlockState K config) (codec : KeyCodec K) :
    (s.restart codec).inflight = Dict.empty := by
  rw [restart]
  split
  · rfl
  · rw [loadManifest_saveManifest]
    rfl

variable {event : LifeEvent K config}

theorem SlotsHeld.restored (h : s.SlotsHeld) (hdata : s.DataSound)
    (hrecoverable : s.Recoverable codec event) :
    s.Restored codec event := by
  cases event with
  | op event => trivial
  | restart =>
    refine ⟨?_, ?_⟩
    · intro snapshot hmanifest
      have hindex := (hrecoverable snapshot hmanifest).restoreIndex (hdata.manifest snapshot hmanifest)
      rw [RawBlockState.restart, hmanifest]
      dsimp only
      rw [loadManifest_saveManifest]
      exact hindex
    · intro slot hslot
      have hheld := h.restart hdata hrecoverable
      have hcount := hheld.oneOwner hslot
      rw [ownerCount, inflight_restart] at hcount
      exact hcount

theorem SlotsHeld.recovered (h : s.SlotsHeld) (hdata : s.DataSound) : s.Recovered where
  returned := hdata.returned
  apart := fun _ _ _ _ hentry hentry' heq => h.apart hentry hentry' heq
  oneOwner := fun _ hslot => h.oneOwner hslot

theorem SlotsHeld.live (h : s.SlotsHeld) (hdata : s.DataSound)
    (hrecoverable : s.Recoverable codec event) :
    (s.live codec event).SlotsHeld ∧ (s.live codec event).DataSound := by
  cases event with
  | op event =>
    exact ⟨h.exec codec hrecoverable.1, hdata.exec h codec hrecoverable.2⟩
  | restart => exact ⟨h.restart hdata hrecoverable, hdata.restart hrecoverable⟩

theorem recovered_final (u : UnicodeDigits) (device : ℕ → UInt8)
    (events : List (LifeEvent KeyIdentity config))
    (h : Along (live (cacheKeys u)) (Recoverable (cacheKeys u)) (start config device) events) :
    Along (live (cacheKeys u)) (Restored (cacheKeys u)) (start config device) events ∧
      (final (live (cacheKeys u)) (start config device) events).Recovered := by
  have hstart : (start config device : RawBlockState KeyIdentity config).SlotsHeld ∧
      (start config device : RawBlockState KeyIdentity config).DataSound :=
    ⟨SlotsHeld.start device, DataSound.start device⟩
  have hstep : ∀ (s : RawBlockState KeyIdentity config) event,
      s.SlotsHeld ∧ s.DataSound → s.Recoverable (cacheKeys u) event →
        (s.live (cacheKeys u) event).SlotsHeld ∧ (s.live (cacheKeys u) event).DataSound :=
    fun _ _ hs hrecoverable => hs.1.live hs.2 hrecoverable
  constructor
  · exact along_of_invariant hstep (fun _ _ hs hrecoverable => hs.1.restored hs.2 hrecoverable)
      hstart h
  · have hfinal := invariant_final hstep hstart h
    exact hfinal.1.recovered hfinal.2

def hashedKey (chunkHash : ℤ) : KeyIdentity :=
  ⟨['m'], 1, 0, chunkHash, .uint8, [], none, List.nodup_nil⟩

def savedPut (chunkHash : ℤ) : List (LifeEvent KeyIdentity (smallDevice true)) :=
  (putEvents true (hashedKey chunkHash) 8 7).map .op ++
    [.op (.saveManifest (hashedKey chunkHash)), .op (.replaceManifest (hashedKey chunkHash) true)]

theorem recovered_final_savedPut :
    (final (live (cacheKeys Key.asciiOnly)) (emptyDevice true)
      (savedPut 1 ++ [.restart, .op (.lookup 0 (hashedKey 1)),
        .op (.read 0 (List.replicate 8 0))])).Recovered := by
  refine (recovered_final Key.asciiOnly _ _ ?_).2
  refine ⟨⟨trivial, by decide⟩, ⟨trivial, by decide⟩,
    ⟨fun _ => (by decide : (smallDevice true).Fits _), by decide⟩, ⟨trivial, by decide⟩,
    ⟨trivial, by decide⟩, ⟨trivial, by decide⟩, ⟨trivial, by decide⟩, ⟨trivial, by decide⟩, ?_,
    ⟨trivial, by decide⟩, ⟨trivial, by decide⟩, trivial⟩
  intro snapshot hsaved
  obtain rfl := Option.some.inj hsaved
  exact ⟨rfl, by decide, by decide⟩

theorem not_recovered_rewrittenSlot :
    ¬ (final (live (cacheKeys Key.asciiOnly)) (emptyDevice true)
      (savedPut 1 ++ [.op (.remove (hashedKey 1))] ++ (putEvents true (hashedKey 2) 8 9).map .op ++
        [.restart, .op (.lookup 0 (hashedKey 1)),
          .op (.read 0 (List.replicate 8 0))])).Recovered := by
  intro h
  have hreturned := h.returned (hashedKey 1, List.replicate 8 9) (by decide)
  revert hreturned
  decide

end RawBlockState

end LMCache.RawBlock
