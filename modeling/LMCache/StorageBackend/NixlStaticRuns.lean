import Mathlib.Algebra.Order.Ring.Nat
import Mathlib.Data.Finset.Lattice.Lemmas
import LMCache.StorageBackend.NixlStatic

namespace LMCache

open Function List NixlKeyMetadata Cells Execution Option

namespace NixlStatic

variable {K S B : Type} [DecidableEq K] {b : NixlStatic K S B} {puts : List (K × S × B)}

def SlotsApart (b : NixlStatic K S B) : Prop :=
  (b.indices ++ b.keyDict.values.map index).Perm (range b.size)

instance (b : NixlStatic K S B) : Decidable b.SlotsApart :=
  inferInstanceAs (Decidable (List.Perm _ _))

structure Sound (puts : List (K × S × B)) (b : NixlStatic K S B) : Prop where
  slots : b.SlotsApart
  stored : ∀ key m, b.keyDict.get? key = some m → (key, m.layout, b.storage m.index) ∈ puts
  nodup : b.freeBlocks.Nodup
  free : ∀ address ∈ b.freeBlocks, b.refCounts address = 0

theorem Sound.mono (h : b.Sound puts) {puts' : List (K × S × B)} (hsub : puts ⊆ puts') :
    b.Sound puts' :=
  ⟨h.slots, fun key m hget => hsub (h.stored key m hget), h.nodup, h.free⟩

theorem get?_remove (b : NixlStatic K S B) (key k : K) :
    (b.remove key).keyDict.get? k = if key = k then none else b.keyDict.get? k := by
  rw [remove]
  cases hget : b.keyDict.get? key with
  | none =>
    split_ifs with heq
    · exact heq ▸ hget
    · rfl
  | some m =>
    dsimp only [push]
    rw [apply_ite keyDict, ite_self]
    exact Dict.get?_erase _ _ _

theorem remove_frame (b : NixlStatic K S B) (key : K) :
    ∃ indices keyDict, b.remove key = { b with indices := indices, keyDict := keyDict } := by
  rw [remove]
  cases b.keyDict.get? key with
  | none => exact ⟨_, _, rfl⟩
  | some m =>
    dsimp only [push]
    split_ifs
    · exact ⟨_, _, rfl⟩
    · exact ⟨_, _, rfl⟩

theorem SlotsApart.remove (h : b.SlotsApart) (key : K) : (b.remove key).SlotsApart := by
  rw [NixlStatic.remove]
  cases hget : b.keyDict.get? key with
  | none => exact h
  | some m =>
    have herase := (b.keyDict.values_erase_perm key).map index
    rw [hget, map_append] at herase
    have hall : (m.index :: (b.indices ++
        (b.keyDict.erase key).values.map index)).Perm (range b.size) :=
      (perm_middle.symm.trans (herase.append_left b.indices)).trans h
    have hroom : b.indices.length < b.size := by
      have hlen := hall.length_eq
      rw [length_cons, length_append, length_range] at hlen
      omega
    dsimp only [push]
    rw [if_pos hroom]
    exact hall

theorem Sound.remove (h : b.Sound puts) (key : K) : (b.remove key).Sound puts := by
  obtain ⟨indices, keyDict, hframe⟩ := b.remove_frame key
  have hslots := h.slots.remove key
  have hget := b.get?_remove key
  rw [hframe] at hslots hget ⊢
  refine ⟨hslots, fun k m hk => h.stored k m ?_, h.nodup, h.free⟩
  have hkept := (hget k).symm.trans hk
  split_ifs at hkept with heq
  exact hkept

theorem Sound.batchedRemove (h : b.Sound puts) (keys : List K) :
    (b.batchedRemove keys).Sound puts := by
  rw [NixlStatic.batchedRemove]
  induction keys generalizing b with
  | nil => exact h
  | cons key keys ih => exact ih (h.remove key)

theorem Sound.setMetadata (h : b.Sound puts) (key : K) {f : NixlKeyMetadata S → NixlKeyMetadata S}
    (hf : ∀ m, (f m).layout = m.layout ∧ (f m).index = m.index) :
    (b.setMetadata key f).Sound puts := by
  rw [NixlStatic.setMetadata]
  cases hget : b.keyDict.get? key with
  | none => exact h
  | some m =>
    refine ⟨?_, fun k m' hk => ?_, h.nodup, h.free⟩
    · have hset := (b.keyDict.values_set_perm key (f m)).map index
      rw [hget, map_append, map_cons, (hf m).2] at hset
      exact (hset.cons_inv.append_left b.indices).trans h.slots
    · rw [Dict.get?_set] at hk
      split_ifs at hk with heq
      · cases hk
        rw [(hf m).1, (hf m).2, ← heq]
        exact h.stored key m hget
      · exact h.stored k m' hk

variable {b' : NixlStatic K S B}

theorem Sound.batchedSubmitPutTask (h : b.Sound puts) {keys evictKeys : List K}
    (hsubmit : b.batchedSubmitPutTask keys evictKeys = some b') :
    b'.Sound puts := by
  rw [NixlStatic.batchedSubmitPutTask] at hsubmit
  split_ifs at hsubmit
  · obtain rfl := some.inj hsubmit
    obtain ⟨hslots, hstored, hnodup, hfree⟩ := h.batchedRemove evictKeys
    exact ⟨hslots, hstored, hnodup, hfree⟩
  · obtain rfl := some.inj hsubmit
    exact ⟨h.slots, h.stored, h.nodup, h.free⟩

structure Fits (b : NixlStatic K S B) (items : List (K × ℕ)) : Prop where
  nodup : (items.map Prod.fst).Nodup
  fresh : ∀ item ∈ items, b.keyDict.contains item.1 = false
  room : items.length ≤ b.indices.length

structure Taken (b : NixlStatic K S B) (items : List (K × ℕ)) (slots : List ℕ)
    (keyDict : Dict K (NixlKeyMetadata S)) : Prop where
  perm : (keyDict.values.map index).Perm (slots ++ b.keyDict.values.map index)
  entry : ∀ key m, keyDict.get? key = some m → b.keyDict.get? key = some m ∨
    ∃ item index, (index, item) ∈ slots.zip items ∧ item.1 = key ∧
      m = ⟨b.layouts item.2, index, 0⟩

theorem Fits.takeSlots {items : List (K × ℕ)} (h : b.Fits items) :
    ∃ keyDict, b.takeSlots items =
        ({ b with indices := b.indices.drop items.length, keyDict := keyDict },
          some (b.indices.take items.length)) ∧
      b.Taken items (b.indices.take items.length) keyDict := by
  induction items generalizing b with
  | nil => exact ⟨b.keyDict, rfl, .refl _, fun key m hget => .inl hget⟩
  | cons item items ih =>
    obtain ⟨key, address⟩ := item
    cases hindices : b.indices with
    | nil =>
      have hroom := h.room
      rw [hindices] at hroom
      exact absurd hroom (Nat.not_succ_le_zero _)
    | cons index rest =>
      have hnew : b.keyDict.contains key = false := h.fresh _ mem_cons_self
      have hnone : b.keyDict.get? key = none := isNone_iff_eq_none.mp (by
        simpa [Dict.contains] using hnew)
      obtain ⟨hnotMem, hnodup⟩ := nodup_cons.mp h.nodup
      have hrest : Fits { b with
          indices := rest
          keyDict := b.keyDict.set key ⟨b.layouts address, index, 0⟩ } items := by
        refine ⟨hnodup, fun item hitem => ?_, ?_⟩
        · have hmem : item.1 ∈ items.map Prod.fst := mem_map_of_mem hitem
          have hne : ¬ key = item.1 := fun heq => hnotMem (heq ▸ hmem)
          have hold := h.fresh item (mem_cons_of_mem _ hitem)
          rw [Dict.contains] at hold ⊢
          rwa [Dict.get?_set, if_neg hne]
        · have hroom := h.room
          rw [hindices] at hroom
          exact Nat.le_of_succ_le_succ hroom
      obtain ⟨keyDict, htake, hperm, hentry⟩ := ih hrest
      refine ⟨keyDict, ?_, ?_, fun k m hget => ?_⟩
      · rw [NixlStatic.takeSlots, hindices]
        dsimp only [addKeyToDict]
        rw [hnew, if_neg Bool.false_ne_true]
        dsimp only
        rw [htake]
        rfl
      · have hset := (b.keyDict.values_set_perm key
          (⟨b.layouts address, index, 0⟩ : NixlKeyMetadata S)).map NixlKeyMetadata.index
        rw [hnone] at hset
        exact hperm.trans ((hset.append_left _).trans perm_middle)
      · rcases hentry k m hget with hold | ⟨item, index', hmem, hkey, hm⟩
        · rw [Dict.get?_set] at hold
          split_ifs at hold with heq
          · exact .inr ⟨(key, address), index, mem_cons_self, heq, (some.inj hold).symm⟩
          · exact .inl hold
        · exact .inr ⟨item, index', mem_cons_of_mem _ hmem, hkey, hm⟩

theorem Sound.memToStorage (h : b.Sound puts) {items : List (K × ℕ)} (hfits : b.Fits items)
    (hputs : ∀ item ∈ items, (item.1, b.layouts item.2, b.memory item.2) ∈ puts) :
    (b.memToStorage items .done).Sound puts := by
  obtain ⟨keyDict, htake, hperm, hentry⟩ := hfits.takeSlots
  rw [NixlStatic.memToStorage, htake]
  have hslots : (b.indices.drop items.length ++ keyDict.values.map index).Perm
      (range b.size) := by
    refine (hperm.append_left _).trans (.trans ?_ h.slots)
    rw [← append_assoc]
    refine List.Perm.append_right _ (perm_append_comm.trans ?_)
    rw [take_append_drop]
  have hapart : (b.indices.take items.length ++ b.keyDict.values.map index).Nodup :=
    hperm.nodup_iff.mp (hslots.nodup_iff.mpr nodup_range).of_append_right
  have hlen : (b.indices.take items.length).length =
      (items.map (fun item => b.memory item.2)).length := by
    rw [length_map]
    exact length_take_of_le hfits.room
  have hcells : (((b.indices.take items.length).zip
      (items.map (fun item => b.memory item.2))).map Prod.fst) = b.indices.take items.length :=
    map_fst_zip hlen.le
  refine ⟨hslots, fun key m hget => ?_, h.nodup, h.free⟩
  rcases hentry key m hget with hold | ⟨item, index, hmem, rfl, rfl⟩
  · have hnotMem : m.index ∉ b.indices.take items.length := fun hmem =>
      (disjoint_of_nodup_append hapart) hmem
        (mem_map_of_mem ((Dict.mem_values_iff _ _).mpr ⟨key, hold⟩))
    dsimp only [NixlTransfer.moved]
    rw [write_of_notMem (by rwa [hcells])]
    exact h.stored key m hold
  · have hcell : (index, b.memory item.2) ∈
        (b.indices.take items.length).zip (items.map (fun item => b.memory item.2)) := by
      rw [zip_map_right]
      exact mem_map.mpr ⟨_, hmem, rfl⟩
    have hnodup : (((b.indices.take items.length).zip
        (items.map (fun item => b.memory item.2))).map Prod.fst).Nodup := by
      rw [hcells]
      exact hapart.of_append_left
    have hwrite := write_of_mem (f := b.storage) hnodup hcell
    dsimp only [NixlTransfer.moved]
    rw [hwrite]
    exact hputs item (of_mem_zip hmem).2

variable {address : ℕ}

theorem Sound.allocate (h : b.Sound puts) {layout : S}
    (halloc : b.allocate layout = some (address, b')) : b'.Sound puts := by
  rw [NixlStatic.allocate] at halloc
  cases hfree : b.freeBlocks with
  | nil => simp [hfree] at halloc
  | cons first rest =>
    rw [hfree] at halloc
    obtain ⟨rfl, rfl⟩ := Prod.mk.inj (some.inj halloc)
    have hnodup := h.nodup
    rw [hfree, nodup_cons] at hnodup
    refine ⟨h.slots, h.stored, hnodup.2, fun other hother => ?_⟩
    have hne : other ≠ first := fun heq => hnodup.1 (heq ▸ hother)
    dsimp only
    rw [update_of_ne hne]
    exact h.free other (hfree ▸ mem_cons_of_mem _ hother)

theorem Sound.refCountDown (h : b.Sound puts) (hheld : 0 < b.refCounts address) :
    (b.refCountDown address).Sound puts := by
  have hnotMem : address ∉ b.freeBlocks := fun hmem => hheld.ne' (h.free address hmem)
  refine ⟨h.slots, h.stored, ?_, fun other hother => ?_⟩
  · dsimp only [NixlStatic.refCountDown]
    split_ifs
    · exact nodup_append_comm.mp (nodup_cons.mpr ⟨hnotMem, h.nodup⟩)
    · exact h.nodup
  · dsimp only [NixlStatic.refCountDown] at hother ⊢
    split_ifs at hother with hlast
    · rcases mem_append.mp hother with hold | hnew
      · have hne : other ≠ address := fun heq => hnotMem (heq ▸ hold)
        rw [update_of_ne hne]
        exact h.free other hold
      · rw [mem_singleton.mp hnew, update_self]
        exact hlast
    · have hne : other ≠ address := fun heq => hnotMem (heq ▸ hother)
      rw [update_of_ne hne]
      exact h.free other hother

theorem Sound.refCountUp (h : b.Sound puts) (hheld : 0 < b.refCounts address) :
    (b.refCountUp address).Sound puts := by
  have hnotMem : address ∉ b.freeBlocks := fun hmem => hheld.ne' (h.free address hmem)
  refine ⟨h.slots, h.stored, h.nodup, fun other hother => ?_⟩
  have hne : other ≠ address := fun heq => hnotMem (heq ▸ hother)
  dsimp only [NixlStatic.refCountUp]
  rw [update_of_ne hne]
  exact h.free other hother

omit [DecidableEq K] in
theorem allocateAll_of_full (hfull : b.freeBlocks = []) (layouts : List S) :
    b.allocateAll layouts = ([], b) := by
  cases layouts with
  | nil => rfl
  | cons layout layouts => simp only [allocateAll, allocate, hfull]

omit [DecidableEq K] in
theorem allocateAll_eq {layouts : List S} (hroom : layouts.length ≤ b.freeBlocks.length) :
    b.allocateAll layouts = (b.freeBlocks.take layouts.length, { b with
      freeBlocks := b.freeBlocks.drop layouts.length
      layouts := write b.layouts ((b.freeBlocks.take layouts.length).zip layouts)
      refCounts := write b.refCounts
        ((b.freeBlocks.take layouts.length).map (fun address => (address, 1))) }) := by
  induction layouts generalizing b with
  | nil => simp [allocateAll]
  | cons layout layouts ih =>
    cases hfree : b.freeBlocks with
    | nil =>
      rw [hfree] at hroom
      exact absurd hroom (Nat.not_succ_le_zero _)
    | cons address rest =>
      rw [hfree] at hroom
      have hrest : layouts.length ≤ rest.length := Nat.le_of_succ_le_succ hroom
      simp only [allocateAll, allocate, hfree]
      rw [ih hrest]
      rfl

theorem Sound.allocateAll (h : b.Sound puts) (layouts : List S) :
    (b.allocateAll layouts).2.Sound puts := by
  induction layouts generalizing b with
  | nil => exact h
  | cons layout layouts ih =>
    rw [NixlStatic.allocateAll]
    cases halloc : b.allocate layout with
    | none => exact h
    | some allocated => exact ih (h.allocate halloc)

def ReadsWhole (b : NixlStatic K S B) (keys : List K) (outcome : NixlTransfer) : Prop :=
  b.freeBlocks = [] ∨ b.collectMetadata keys = [] ∨
    (b.collectMetadata keys).length ≤ b.freeBlocks.length ∧ outcome = .done

variable {keys : List K}

theorem mem_collectMetadata {entry : K × NixlKeyMetadata S} (h : entry ∈ b.collectMetadata keys) :
    b.keyDict.get? entry.1 = some entry.2 := by
  obtain ⟨key, _, hentry⟩ := mem_filterMap.mp h
  obtain ⟨m, hget, rfl⟩ := map_eq_some_iff.mp hentry
  exact hget

structure ReadSound (puts : List (K × S × B)) (found : ℕ)
    (read : NixlStatic K S B × Except (List ℕ) (List (K × ℕ))) : Prop where
  backend : read.1.Sound puts
  raised : ∀ addresses, read.2 = .error addresses → addresses = []
  objs : ∀ objs, read.2 = .ok objs → (objs = [] ∨ objs.length = found) ∧ ∀ obj ∈ objs,
    (obj.1, read.1.layouts obj.2, read.1.memory obj.2) ∈ puts

theorem ReadSound.of_error (h : b.Sound puts) (found : ℕ) : ReadSound puts found (b, .error []) :=
  ⟨h, fun addresses heq => (Except.error.inj heq).symm, fun objs heq => (by cases heq)⟩

theorem ReadSound.of_nothing (h : b.Sound puts) (found : ℕ) : ReadSound puts found (b, .ok []) := by
  refine ⟨h, fun addresses heq => (by cases heq), fun objs heq => ?_⟩
  obtain rfl := Except.ok.inj heq
  exact ⟨.inl rfl, fun obj hobj => absurd hobj not_mem_nil⟩

theorem read_page (hstored : ∀ key m, b.keyDict.get? key = some m →
      (key, m.layout, b.storage m.index) ∈ puts) {found : List (K × NixlKeyMetadata S)}
    (hfound : ∀ entry ∈ found, b.keyDict.get? entry.1 = some entry.2) {addresses : List ℕ}
    (hnodup : addresses.Nodup) (hlen : addresses.length = found.length) (layouts : ℕ → S)
    (memory : ℕ → B) {obj : K × ℕ} (hobj : obj ∈ (found.map Prod.fst).zip addresses) :
    (obj.1, write layouts (addresses.zip (found.map (fun entry => entry.2.layout))) obj.2,
      write memory (addresses.zip (found.map (fun entry => b.storage entry.2.index))) obj.2) ∈
        puts := by
  obtain ⟨i, hi⟩ := mem_iff_getElem?.mp hobj
  obtain ⟨hkey, haddress⟩ := getElem?_zip_eq_some.mp hi
  rw [getElem?_map] at hkey
  obtain ⟨entry, hentry, heq⟩ := map_eq_some_iff.mp hkey
  have hmem : ∀ {V : Type} (f : K × NixlKeyMetadata S → V),
      (obj.2, f entry) ∈ addresses.zip (found.map f) := by
    intro V f
    refine mem_iff_getElem?.mpr ⟨i, getElem?_zip_eq_some.mpr ⟨haddress, ?_⟩⟩
    rw [getElem?_map, hentry]
    rfl
  have hcells : ∀ {V : Type} (f : K × NixlKeyMetadata S → V),
      ((addresses.zip (found.map f)).map Prod.fst).Nodup := by
    intro V f
    rw [map_fst_zip (by rw [length_map, hlen])]
    exact hnodup
  have hlayout := write_of_mem (f := layouts) (hcells _) (hmem fun entry => entry.2.layout)
  have hbytes := write_of_mem (f := memory) (hcells _)
    (hmem fun entry => b.storage entry.2.index)
  rw [hlayout, hbytes, ← heq]
  exact hstored entry.1 entry.2 (hfound entry (mem_of_getElem? hentry))

theorem storageToMem_of_full (hfull : b.freeBlocks = []) (keys : List K) (outcome : NixlTransfer) :
    b.storageToMem keys outcome = (b, .error []) ∨ b.storageToMem keys outcome = (b, .ok []) := by
  rw [storageToMem, allocateAll_of_full hfull]
  dsimp only
  rw [if_pos rfl]
  split_ifs
  · exact .inl rfl
  · exact .inr rfl

variable {outcome : NixlTransfer}

theorem Sound.storageToMem (h : b.Sound puts) (hwhole : b.ReadsWhole keys outcome) :
    ReadSound puts (b.collectMetadata keys).length (b.storageToMem keys outcome) := by
  have hentry : ∀ entry ∈ b.collectMetadata keys, b.keyDict.get? entry.1 = some entry.2 :=
    fun entry hmem => mem_collectMetadata hmem
  rcases hwhole with hfull | hnone | ⟨hroom, rfl⟩
  · rcases storageToMem_of_full hfull keys outcome with heq | heq
    · exact heq ▸ .of_error h _
    · exact heq ▸ .of_nothing h _
  · rw [NixlStatic.storageToMem, hnone]
    exact .of_nothing h _
  · rw [NixlStatic.storageToMem]
    generalize hfound : b.collectMetadata keys = found at *
    have hafter := h.allocateAll (found.map (fun entry => entry.2.layout))
    rw [allocateAll_eq (by rwa [length_map]), length_map] at hafter ⊢
    have hlen : (b.freeBlocks.take found.length).length = found.length :=
      length_take_of_le hroom
    dsimp only at hafter ⊢
    rw [if_neg hlen.not_lt]
    split_ifs with hempty
    · exact .of_nothing hafter _
    · refine ⟨⟨hafter.slots, hafter.stored, hafter.nodup, hafter.free⟩,
        fun addresses heq => (by cases heq), fun objs heq => ?_⟩
      obtain rfl := Except.ok.inj heq
      refine ⟨.inr ?_, fun obj hobj => ?_⟩
      · rw [length_zip, length_map, hlen, min_self]
      · exact read_page h.stored hentry (h.nodup.sublist (take_sublist _ _)) hlen _ _ hobj

theorem Sound.batchedGetNonBlocking (h : b.Sound puts) (hwhole : b.ReadsWhole keys outcome)
    (hall : b.freeBlocks = [] ∨ b.collectMetadata keys = [] ∨
      (b.collectMetadata keys).length = keys.length) :
    ReadSound puts (b.collectMetadata keys).length (b.batchedGetNonBlocking keys outcome) := by
  have hread := h.storageToMem hwhole
  have hnone : ∀ objs, (b.storageToMem keys outcome).2 = .ok objs → objs.length < keys.length →
      objs = [] := by
    intro objs hobjs hshort
    rcases hall with hfull | hfound | hfound
    · rcases storageToMem_of_full hfull keys outcome with heq | heq
      · rw [heq] at hobjs
        cases hobjs
      · rw [heq] at hobjs
        exact (Except.ok.inj hobjs).symm
    · refine ((hread.objs objs hobjs).1).elim id fun hlen => eq_nil_of_length_eq_zero ?_
      rw [hlen, hfound, length_nil]
    · exact ((hread.objs objs hobjs).1).resolve_right fun hlen => hshort.ne (hlen.trans hfound)
  rw [NixlStatic.batchedGetNonBlocking]
  generalize b.storageToMem keys outcome = read at hread hnone ⊢
  obtain ⟨b', read⟩ := read
  cases read with
  | error addresses => exact hread
  | ok objs =>
    dsimp only
    split_ifs with hshort
    · rw [hnone objs rfl hshort]
      exact .of_error hread.backend _
    · exact hread

end NixlStatic

namespace NixlStaticRun

open NixlStatic

variable {K S B : Type} [DecidableEq K] {run : NixlStaticRun K S B}

def Unchanged (run : NixlStaticRun K S B) (put : NixlStaticPut K S B) : Prop :=
  run.backend.layouts put.address = put.layout ∧ run.backend.memory put.address = put.bytes

def WritesWhole (run : NixlStaticRun K S B) (puts : List (NixlStaticPut K S B))
    (outcome : NixlTransfer) : Prop :=
  puts = [] ∨ run.backend.indices = [] ∨
    run.backend.Fits (puts.map (fun put => (put.key, put.address))) ∧
      (∀ put ∈ puts, run.Unchanged put) ∧ outcome = .done

instance [DecidableEq S] [DecidableEq B] (run : NixlStaticRun K S B) (put : NixlStaticPut K S B) :
    Decidable (run.Unchanged put) :=
  inferInstanceAs (Decidable (_ ∧ _))

def Timely (run : NixlStaticRun K S B) : NixlStaticEvent K S B → Prop
  | .memToStorage task outcome =>
      ∀ puts, run.submitted[task]? = some puts → run.WritesWhole puts outcome
  | .storageToMem keys outcome => run.backend.ReadsWhole keys outcome
  | .batchedGetNonBlocking keys outcome =>
      run.backend.ReadsWhole keys outcome ∧ (run.backend.freeBlocks = [] ∨
        run.backend.collectMetadata keys = [] ∨
          (run.backend.collectMetadata keys).length = keys.length)
  | _ => True

structure Consistent (run : NixlStaticRun K S B) : Prop where
  slots : run.backend.SlotsApart
  returned : ∀ entry ∈ run.returned, entry ∈ run.puts
  failedPuts : ∀ key ∈ run.failedPuts,
    run.backend.keyDict.contains key = false ∧ key ∉ run.backend.progressSet
  failedReads : ∀ address ∈ run.failedReads, run.backend.refCounts address = 0

structure Kept (run : NixlStaticRun K S B) : Prop where
  backend : run.backend.Sound run.puts
  submitted : ∀ puts ∈ run.submitted, ∀ put ∈ puts, (put.key, put.layout, put.bytes) ∈ run.puts
  returned : ∀ entry ∈ run.returned, entry ∈ run.puts
  failedPuts : run.failedPuts = ∅
  failedReads : run.failedReads = []

theorem Kept.consistent (h : run.Kept) : run.Consistent := by
  refine ⟨h.backend.slots, h.returned, fun key hkey => ?_, fun address haddress => ?_⟩
  · rw [h.failedPuts] at hkey
    exact absurd hkey (Finset.notMem_empty key)
  · rw [h.failedReads] at haddress
    exact absurd haddress not_mem_nil

theorem kept_start (size numBlocks : ℕ) (storage : ℕ → B) (layouts : ℕ → S) (memory : ℕ → B) :
    (start size numBlocks storage layouts memory : NixlStaticRun K S B).Kept := by
  refine ⟨⟨?_, fun key m hget => ?_, nodup_range, fun _ _ => rfl⟩, ?_, ?_, rfl, rfl⟩
  · exact List.Perm.of_eq (append_nil _)
  · cases hget
  · exact fun puts hputs => absurd hputs not_mem_nil
  · exact fun entry hentry => absurd hentry not_mem_nil

theorem Kept.setBackend (h : run.Kept) {backend : NixlStatic K S B}
    (hbackend : backend.Sound run.puts) : ({ run with backend := backend }).Kept :=
  ⟨hbackend, h.submitted, h.returned, h.failedPuts, h.failedReads⟩

theorem Kept.finishRead (h : run.Kept) {found : ℕ}
    {read : NixlStatic K S B × Except (List ℕ) (List (K × ℕ))}
    (hread : ReadSound run.puts found read) : (run.finishRead read).Kept := by
  obtain ⟨backend, read⟩ := read
  cases read with
  | error addresses =>
    refine ⟨hread.backend, h.submitted, h.returned, h.failedPuts, ?_⟩
    exact append_eq_nil_iff.mpr ⟨h.failedReads, hread.raised addresses rfl⟩
  | ok objs =>
    refine ⟨hread.backend, h.submitted, fun entry hentry => ?_, h.failedPuts, ?_⟩
    · rcases mem_append.mp hentry with hold | hnew
      · exact h.returned entry hold
      · obtain ⟨obj, hobj, rfl⟩ := mem_map.mp hnew
        exact (hread.objs objs rfl).2 obj hobj
    · dsimp only [NixlStaticRun.finishRead]
      rw [h.failedReads, filter_nil]

theorem Kept.allocate (h : run.Kept) (layout : S) (bytes : B) :
    (run.exec (.allocate layout bytes)).Kept := by
  dsimp only [exec]
  cases halloc : run.backend.allocate layout with
  | none => exact h
  | some allocated =>
    have hbackend := h.backend.allocate halloc
    refine ⟨⟨hbackend.slots, hbackend.stored, hbackend.nodup, hbackend.free⟩, h.submitted,
      h.returned, h.failedPuts, ?_⟩
    dsimp only
    rw [h.failedReads, filter_nil]

theorem Kept.batchedSubmitPutTask (h : run.Kept) (items : List (K × ℕ)) (evictKeys : List K) :
    (run.exec (.batchedSubmitPutTask items evictKeys)).Kept := by
  dsimp only [exec]
  cases hsubmit : run.backend.batchedSubmitPutTask (items.map Prod.fst) evictKeys with
  | none => exact h
  | some backend =>
    refine ⟨(h.backend.batchedSubmitPutTask hsubmit).mono (subset_append_left _ _),
      fun puts hputs put hput => ?_,
      fun entry hentry => mem_append_left _ (h.returned entry hentry), ?_, h.failedReads⟩
    · rcases mem_append.mp hputs with hold | hnew
      · exact mem_append_left _ (h.submitted puts hold put hput)
      · rw [mem_singleton.mp hnew] at hput
        exact mem_append_right _ (mem_map_of_mem hput)
    · dsimp only
      rw [h.failedPuts, Finset.empty_sdiff]

variable {items : List (K × ℕ)}

theorem takeSlots_of_empty {b : NixlStatic K S B} (hempty : b.indices = []) (hitems : items ≠ []) :
    b.takeSlots items = (b, none) := by
  cases items with
  | nil => exact absurd rfl hitems
  | cons item items => simp only [takeSlots, hempty]

theorem memToStorage_of_empty {b : NixlStatic K S B} {recorded : List (K × S × B)}
    (h : b.Sound recorded) (hnothing : items = [] ∨ b.indices = []) (outcome : NixlTransfer) :
    (b.memToStorage items outcome).Sound recorded := by
  by_cases hitems : items = []
  · rw [hitems]
    cases outcome with
    | done => exact ⟨h.slots, h.stored, h.nodup, h.free⟩
    | raised written =>
      dsimp only [NixlStatic.memToStorage, takeSlots, NixlTransfer.moved, zip_nil_left]
      rw [take_nil]
      exact ⟨h.slots, h.stored, h.nodup, h.free⟩
  · rw [NixlStatic.memToStorage, takeSlots_of_empty (hnothing.resolve_left hitems) hitems]
    exact h

theorem raisedKeys_of_empty (hnothing : items = [] ∨ run.backend.indices = [])
    (outcome : NixlTransfer) :
    run.raisedKeys items outcome = ∅ := by
  cases outcome with
  | done => rfl
  | raised written =>
    by_cases hitems : items = []
    · rw [hitems]
      rfl
    · rw [raisedKeys, takeSlots_of_empty (hnothing.resolve_left hitems) hitems]
      rfl

theorem Kept.memToStorage (h : run.Kept) {task : ℕ} {outcome : NixlTransfer}
    (htimely : run.Timely (.memToStorage task outcome)) :
    (run.exec (.memToStorage task outcome)).Kept := by
  dsimp only [exec]
  cases htask : run.submitted[task]? with
  | none => exact h
  | some puts =>
    have hputs := h.submitted puts (mem_of_getElem? htask)
    have hleft : ∀ puts' ∈ run.submitted.eraseIdx task, ∀ put ∈ puts',
        (put.key, put.layout, put.bytes) ∈ run.puts :=
      fun puts' hmem => h.submitted puts' (mem_of_mem_eraseIdx hmem)
    rcases or_assoc.mpr (htimely puts htask) with hnothing | ⟨hfits, hkept, rfl⟩
    · have hitems : puts.map (fun put => (put.key, put.address)) = [] ∨ run.backend.indices = [] :=
        hnothing.imp_left (fun hnil => by rw [hnil, map_nil])
      refine ⟨memToStorage_of_empty h.backend hitems outcome, hleft, h.returned, ?_, h.failedReads⟩
      dsimp only
      rw [h.failedPuts, raisedKeys_of_empty hitems, Finset.empty_union]
    · refine ⟨h.backend.memToStorage hfits fun item hitem => ?_, hleft, h.returned, ?_,
        h.failedReads⟩
      · obtain ⟨put, hput, rfl⟩ := mem_map.mp hitem
        rw [(hkept put hput).1, (hkept put hput).2]
        exact hputs put hput
      · dsimp only
        rw [h.failedPuts]
        rfl

theorem Kept.exec (h : run.Kept) (event : NixlStaticEvent K S B) (hlegal : run.Enabled event)
    (htimely : run.Timely event) : (run.exec event).Kept := by
  cases event with
  | allocate layout bytes => exact h.allocate layout bytes
  | refCountUp address => exact h.setBackend (h.backend.refCountUp hlegal)
  | refCountDown address => exact h.setBackend (h.backend.refCountDown hlegal)
  | batchedSubmitPutTask items evictKeys => exact h.batchedSubmitPutTask items evictKeys
  | memToStorage task outcome => exact h.memToStorage htimely
  | storageToMem keys outcome => exact h.finishRead (h.backend.storageToMem htimely)
  | batchedGetNonBlocking keys outcome =>
    exact h.finishRead (h.backend.batchedGetNonBlocking htimely.1 htimely.2)
  | remove key => exact h.setBackend (h.backend.remove key)
  | pin key | unpin key => exact h.setBackend (h.backend.setMetadata key fun _ => ⟨rfl, rfl⟩)

theorem consistent_of_timely (size numBlocks : ℕ) (storage : ℕ → B) (layouts : ℕ → S)
    (memory : ℕ → B) (events : List (NixlStaticEvent K S B))
    (hlegal : Execution.Along exec Enabled (start size numBlocks storage layouts memory) events)
    (htimely : Execution.Along exec Timely (start size numBlocks storage layouts memory) events) :
    ∀ pre rest, events = pre ++ rest →
      Consistent (final exec (start size numBlocks storage layouts memory) pre) := by
  have hstep : ∀ (run : NixlStaticRun K S B) event, run.Kept →
      run.Enabled event ∧ run.Timely event → (run.exec event).Kept :=
    fun run event h hevent => h.exec event hevent.1 hevent.2
  rintro pre rest rfl
  have hpre := ((along_append _ pre rest).mp (hlegal.and htimely)).1
  exact (invariant_final hstep (kept_start size numBlocks storage layouts memory) hpre).consistent

def storeAndEvict : List (NixlStaticEvent ℕ ℕ ℕ) :=
  [.allocate 4 70, .batchedSubmitPutTask [(1, 0)] [], .memToStorage 0 .done, .refCountDown 0,
    .storageToMem [1, 2] .done, .allocate 4 80, .batchedSubmitPutTask [(2, 2)] [1],
    .memToStorage 0 .done]

theorem consistent_storeAndEvict :
    Consistent (final exec
      (start 1 3 (fun _ => 0) (fun _ => 0) (fun _ => 0) : NixlStaticRun ℕ ℕ ℕ) storeAndEvict) := by
  refine consistent_of_timely 1 3 (fun _ => 0) (fun _ => 0) (fun _ => 0) storeAndEvict (by decide)
    ⟨trivial, trivial, fun puts hputs => ?_, trivial, .inr (.inr ⟨by decide, rfl⟩), trivial,
      trivial, fun puts hputs => ?_, trivial⟩ storeAndEvict [] rfl
  · obtain rfl := some.inj hputs
    exact .inr (.inr ⟨⟨by decide, by decide, by decide⟩, by decide, rfl⟩)
  · obtain rfl := some.inj hputs
    exact .inr (.inr ⟨⟨by decide, by decide, by decide⟩, by decide, rfl⟩)

def putTwice : List (NixlStaticEvent ℕ ℕ ℕ) :=
  [.allocate 4 70, .batchedSubmitPutTask [(1, 0)] [], .batchedSubmitPutTask [(1, 0)] [],
    .refCountDown 0, .memToStorage 0 .done, .memToStorage 0 .done]

theorem not_consistent_putTwice :
    Execution.Along exec Enabled
        (start 2 1 (fun _ => 0) (fun _ => 0) (fun _ => 0) : NixlStaticRun ℕ ℕ ℕ) putTwice ∧
      ¬ Consistent (final exec
        (start 2 1 (fun _ => 0) (fun _ => 0) (fun _ => 0) : NixlStaticRun ℕ ℕ ℕ) putTwice) := by
  refine ⟨by decide, fun h => ?_⟩
  exact absurd h.slots (by decide)

end NixlStaticRun

end LMCache
