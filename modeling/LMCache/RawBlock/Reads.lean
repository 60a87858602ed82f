import LMCache.RawBlock.DeviceData
import LMCache.RawBlock.SlotOwnership

namespace LMCache.RawBlock

open Utils Protocol Execution

namespace RawBlockState

variable {K : Type} [DecidableEq K] {config : RawBlockConfig} {s : RawBlockState K config}

structure PinsHeld (s : RawBlockState K config) : Prop where
  pinned : ∀ key holder, 0 < s.balance key holder → key ∈ s.pinned
  indexed : ∀ key, s.index.get? key = none → ∀ holder, s.balance key holder = 0
  evictions : ∀ e ∈ s.evictions, ∀ holder, e.2 holder ≤ 0

theorem PinsHeld.start (device : ℕ → UInt8) :
    (RawBlockState.start config device : RawBlockState K config).PinsHeld where
  pinned := fun _ _ h => absurd h (Int.lt_irrefl 0)
  indexed := fun _ _ _ => rfl
  evictions := fun _ h => nomatch h

section Steps

variable (h : s.PinsHeld) {key : K}

include h

theorem PinsHeld.forget :
    (∀ key' holder, 0 < forgetPins s.balance key key' holder → key' ∈ s.pinned.erase key) ∧
      ∀ key', (s.index.erase key).get? key' = none →
        ∀ holder, forgetPins s.balance key key' holder = 0 := by
  constructor
  · intro key' holder hpositive
    rw [forgetPins] at hpositive
    split at hpositive
    · exact absurd hpositive (Int.lt_irrefl 0)
    · next hne => exact Finset.mem_erase.mpr ⟨hne, h.pinned key' holder hpositive⟩
  · intro key' hnone holder
    rw [forgetPins]
    split
    · rfl
    · next hne =>
      rw [Dict.get?_erase, if_neg (Ne.symm hne)] at hnone
      exact h.indexed key' hnone holder

theorem PinsHeld.evict {victim : K} (entry : BlockEntry) (hunpinned : victim ∉ s.pinned) :
    (s.evict victim entry).PinsHeld := by
  refine ⟨h.forget.1, h.forget.2, ?_⟩
  intro e he holder
  rcases List.mem_append.mp he with hold | hnew
  · exact h.evictions e hold holder
  · rw [List.mem_singleton.mp hnew]
    exact Int.not_lt.mp fun hpositive => hunpinned (h.pinned victim holder hpositive)

theorem PinsHeld.removeKey (key : K) : (s.removeKey key).PinsHeld :=
  ⟨h.forget.1, h.forget.2, h.evictions⟩

theorem PinsHeld.pinKey (holder : ℕ) (key : K) : (s.pinKey holder key).PinsHeld := by
  rw [RawBlockState.pinKey]
  split
  · next hindexed =>
    refine ⟨?_, ?_, h.evictions⟩
    · intro key' holder' hpositive
      change 0 < s.addBalance key holder 1 key' holder' at hpositive
      rw [addBalance] at hpositive
      split at hpositive
      · next heq => exact Finset.mem_insert.mpr (Or.inl heq.1)
      · exact Finset.mem_insert_of_mem (h.pinned key' holder' hpositive)
    · intro key' hnone holder'
      change s.addBalance key holder 1 key' holder' = 0
      rw [addBalance, if_neg]
      · exact h.indexed key' hnone holder'
      · rintro ⟨rfl, _⟩
        rw [Dict.contains, show s.index.get? key' = none from hnone] at hindexed
        cases hindexed
  · exact h

theorem PinsHeld.unpinKey {holder : ℕ}
    (hbalance : s.index.contains key = true → ∀ other, s.addBalance key holder (-1) key other ≤ 0) :
    (s.unpinKey holder key).PinsHeld := by
  refine ⟨?_, ?_, h.evictions⟩
  · intro key' holder' hpositive
    simp only [RawBlockState.unpinKey] at hpositive ⊢
    have hne : key' ≠ key := by
      rintro rfl
      split at hpositive
      · next hindexed => exact Int.not_lt.mpr (hbalance hindexed holder') hpositive
      · next hindexed =>
        rw [Dict.contains_iff, ← Dict.get?_eq_none_iff] at hindexed
        rw [h.indexed key' hindexed holder'] at hpositive
        exact Int.lt_irrefl 0 hpositive
    refine Finset.mem_erase.mpr ⟨hne, h.pinned key' holder' ?_⟩
    split at hpositive
    · rw [addBalance, if_neg fun heq => hne heq.1] at hpositive
      exact hpositive
    · exact hpositive
  · intro key' hnone holder'
    change (if s.index.contains key = true then s.addBalance key holder (-1) else s.balance)
      key' holder' = 0
    have hzero := h.indexed key' hnone holder'
    split
    · next hindexed =>
      rw [addBalance, if_neg]
      · exact hzero
      · rintro ⟨rfl, _⟩
        rw [Dict.contains, show s.index.get? key' = none from hnone] at hindexed
        cases hindexed
    · exact hzero

theorem PinsHeld.reserve {job : WriteJob K config} (answer : SizeAnswer) :
    (s.reserve key job answer).PinsHeld := by
  rw [RawBlockState.reserve]
  split
  · exact ⟨h.pinned, h.indexed, h.evictions⟩
  · have hkeeps := reserveSlot_keeps (s := s) (P := PinsHeld)
      (fun _ _ _ h₁ => ⟨h₁.pinned, h₁.indexed, h₁.evictions⟩)
      (fun _ _ h₁ => ⟨h₁.pinned, h₁.indexed, h₁.evictions⟩)
      (fun _ _ entry h₁ hunpinned _ _ => h₁.evict entry hunpinned) answer (s.lru.length + 1) h
    rcases hkeeps with ⟨offset, s', s₀, hslot, hs₀, htaken⟩ | ⟨s', hs', herror | ⟨herror, _⟩⟩
    · rw [hslot]
      cases htaken with
      | reuse slot rest hfree => exact ⟨hs₀.pinned, hs₀.indexed, hs₀.evictions⟩
      | extend => exact ⟨hs₀.pinned, hs₀.indexed, hs₀.evictions⟩
    · rw [herror]
      exact ⟨hs'.pinned, hs'.indexed, hs'.evictions⟩
    · rw [herror]
      exact ⟨hs'.pinned, hs'.indexed, hs'.evictions⟩

theorem PinsHeld.complete (job : WriteJob K config) (failed : Bool) :
    (s.complete key job failed).PinsHeld := by
  rw [RawBlockState.complete]
  split
  · exact ⟨h.pinned, h.indexed, h.evictions⟩
  · dsimp only
    split
    · exact ⟨h.pinned, h.indexed, h.evictions⟩
    · refine ⟨h.pinned, fun key' hnone => h.indexed key' ?_, h.evictions⟩
      change (s.index.set _ _).get? key' = none at hnone
      rw [Dict.get?_set] at hnone
      split at hnone
      · cases hnone
      · exact hnone

end Steps

def PinsKept (s : RawBlockState K config) : RawBlockEvent K config → Prop
  | .unpin holder key =>
      s.index.contains key = true → ∀ other, s.addBalance key holder (-1) key other ≤ 0
  | _ => True

theorem PinsHeld.exec (h : s.PinsHeld) (codec : KeyCodec K) {event : RawBlockEvent K config}
    (hkept : s.PinsKept event) : (s.exec codec event).PinsHeld := by
  have hsame : ∀ s' : RawBlockState K config, s'.pinned = s.pinned → s'.index = s.index →
      s'.balance = s.balance → s'.evictions = s.evictions → s'.PinsHeld := by
    intro s' hpinned hindex hbalance hevictions
    exact ⟨by rw [hpinned, hbalance]; exact h.pinned, by rw [hindex, hbalance]; exact h.indexed,
      by rw [hevictions]; exact h.evictions⟩
  cases event with
  | submit key obj =>
    simp only [RawBlockState.exec, RawBlockState.submit]
    split
    · exact h
    · exact hsame _ rfl rfl rfl rfl
  | reserve key answer =>
    simp only [RawBlockState.exec]
    split
    · exact h.reserve answer
    · exact h
  | start key =>
    simp only [RawBlockState.exec, startWrite]
    split
    · split
      · exact hsame _ rfl rfl rfl rfl
      · exact hsame _ rfl rfl rfl rfl
    · exact h
  | writeHeader key outcome | writePayload key outcome =>
    simp only [RawBlockState.exec]
    split
    · cases outcome with
      | done => exact hsame _ rfl rfl rfl rfl
      | failed written => exact hsame _ rfl rfl rfl rfl
    · exact h
  | complete key =>
    simp only [RawBlockState.exec]
    split
    · exact h.complete _ _
    · exact h
  | saveManifest key =>
    simp only [RawBlockState.exec, maybeSaveManifest]
    split
    · split
      · exact hsame _ rfl rfl rfl rfl
      · split
        · exact hsame _ rfl rfl rfl rfl
        · exact hsame _ rfl rfl rfl rfl
    · exact h
  | replaceManifest key saved | finish key | readFails reader | touch reader =>
    simp only [RawBlockState.exec]
    split
    · exact hsame _ rfl rfl rfl rfl
    · exact h
  | remove key => exact h.removeKey key
  | contains holder key pin =>
    simp only [RawBlockState.exec]
    split
    · exact h.pinKey holder key
    · exact h
  | pin holder key => exact h.pinKey holder key
  | unpin holder key => exact h.unpinKey hkept
  | lookup reader key =>
    simp only [RawBlockState.exec, RawBlockState.lookup]
    split
    · exact h
    · split
      · exact hsame _ rfl rfl rfl rfl
      · exact h
  | read reader buffer =>
    simp only [RawBlockState.exec, RawBlockState.readPayload]
    split
    · split
      · split
        · exact hsame _ rfl rfl rfl rfl
        · exact hsame _ rfl rfl rfl rfl
      · exact h
    · exact h

structure ReadsSound (s : RawBlockState K config) : Prop where
  returned : ∀ r ∈ s.returned, r ∈ s.stored
  evictions : ∀ e ∈ s.evictions, ∀ holder, e.2 holder ≤ 0

def Undisturbed (codec : KeyCodec K) (s : RawBlockState K config)
    (event : RawBlockEvent K config) : Prop :=
  s.Contained event ∧ s.ReadersSpared codec event ∧ s.PinsKept event

theorem readsSound_final (codec : KeyCodec K) (device : ℕ → UInt8)
    (events : List (RawBlockEvent K config))
    (h : Along (exec codec) (Undisturbed codec) (RawBlockState.start config device) events) :
    (final (exec codec) (RawBlockState.start config device) events).ReadsSound := by
  have hfinal := invariant_final (I := fun s : RawBlockState K config =>
      s.SlotsHeld ∧ s.DataSound ∧ s.PinsHeld)
    (fun _ _ hs hundisturbed => ⟨hs.1.exec codec hundisturbed.1,
      hs.2.1.exec hs.1 codec hundisturbed.2.1, hs.2.2.exec codec hundisturbed.2.2⟩)
    ⟨SlotsHeld.start device, DataSound.start device, PinsHeld.start device⟩ h
  exact ⟨hfinal.2.1.returned, hfinal.2.2.evictions⟩

def pinnedRead : List (RawBlockEvent ℕ (smallDevice true)) :=
  putEvents true 1 8 7 ++
    [.pin 0 1, .lookup 0 1, .read 0 (List.replicate 8 0), .touch 0, .unpin 0 1, .remove 1]

theorem readsSound_final_pinnedRead :
    (final (exec numberedKeys) (emptyDevice true) pinnedRead).ReadsSound := by
  have hunpinned : ∀ other, addBalance
      (final (exec numberedKeys) (emptyDevice true) (pinnedRead.take 10)) 1 0 (-1) 1 other ≤ 0 := by
    intro other
    rw [addBalance]
    split
    · next heq =>
      rw [heq.2]
      decide
    · next hne =>
      change (if 1 = 1 ∧ other = 0 then (0 : ℤ) + 1 else 0) ≤ 0
      rw [if_neg hne]
  have hspared : Along (exec numberedKeys) (ReadersSpared numberedKeys) (emptyDevice true)
      pinnedRead := by
    decide
  refine readsSound_final numberedKeys _ pinnedRead (Along.and ?_ (hspared.and ?_))
  · exact ⟨trivial, trivial, fun _ => (by decide : (smallDevice true).Fits _), trivial, trivial,
      trivial, trivial, trivial, trivial, trivial, trivial, trivial, trivial⟩
  · exact ⟨trivial, trivial, trivial, trivial, trivial, trivial, trivial, trivial, trivial,
      trivial, fun _ => hunpinned, trivial, trivial⟩

theorem not_readsSound_rewrittenSlot :
    ¬ (final (exec numberedKeys) (emptyDevice true)
      (putEvents true 1 8 7 ++ [.lookup 0 1, .remove 1] ++ putEvents true 2 8 9 ++
        [.read 0 (List.replicate 8 0)])).ReadsSound := by
  intro h
  have hreturned := h.returned (1, List.replicate 8 9) (by decide)
  revert hreturned
  decide

theorem not_readsSound_sharedPin :
    ¬ (final (exec numberedKeys) (emptyDevice true)
      (putEvents true 1 8 7 ++ [.finish 1, .pin 0 1, .pin 1 1, .unpin 1 1] ++
        putEvents true 2 8 7 ++ putEvents true 3 8 7)).ReadsSound := by
  intro h
  have hevicted := h.evictions _ (List.mem_of_getElem? (i := 0) rfl) 0
  revert hevicted
  decide

end RawBlockState

end LMCache.RawBlock
