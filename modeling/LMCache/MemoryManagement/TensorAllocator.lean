import Mathlib.Data.List.Sort
import LMCache.MemoryManagement.FreeOrder

namespace LMCache

open Region hiding size total start

structure TensorObj where
  rawData : Region
  address : ℕ
  phySize : ℕ
  valid : Bool
deriving DecidableEq, Repr

namespace TensorObj

def region (obj : TensorObj) : Region := ⟨obj.address, obj.phySize⟩

def invalidate (obj : TensorObj) : TensorObj := { obj with valid := false }

end TensorObj

structure TensorMemoryAllocator where
  addressManager : AddressManager
  numActiveAllocations : ℤ
  objects : List TensorObj
deriving DecidableEq, Repr

variable (a : TensorMemoryAllocator)

structure Coalescing where
  objects : List TensorObj
  coalescedBlocks : List (ℕ × ℕ × ℕ)
  curr : Option (ℕ × ℕ × ℕ)

namespace TensorMemoryAllocator

def create (addressSpace alignBytes : ℕ) : TensorMemoryAllocator where
  addressManager := .init addressSpace alignBytes
  numActiveAllocations := 0
  objects := []

def allocate (a : TensorMemoryAllocator) (rawSize : ℕ) : Option ℕ × TensorMemoryAllocator :=
  match a.addressManager.allocate rawSize with
  | (.error _, _) => (none, a)
  | (.ok (blockStart, alignedSize), addressManager) =>
      (some a.objects.length,
        { addressManager := addressManager
          numActiveAllocations := a.numActiveAllocations + 1
          objects := a.objects ++ [⟨⟨blockStart, rawSize⟩, blockStart, alignedSize, true⟩] })

def batchObj (unitAlignedSize address : ℕ) : TensorObj :=
  ⟨⟨address, unitAlignedSize⟩, address, unitAlignedSize, true⟩

def batchedAllocate (a : TensorMemoryAllocator) (unitRawSize : ℕ) (batchSize : ℤ) :
    Option (List ℕ) × TensorMemoryAllocator :=
  let unitAlignedSize := a.addressManager.computeAlignedSize unitRawSize
  match a.addressManager.batchedAllocate unitAlignedSize batchSize with
  | (.error _, _) => (none, a)
  | (.ok allocResults, addressManager) =>
      let addresses := allocResults.map Prod.fst
      (some (List.range' a.objects.length addresses.length),
        { addressManager := addressManager
          numActiveAllocations := a.numActiveAllocations + batchSize
          objects := a.objects ++ addresses.map (batchObj unitAlignedSize) })

def free (a : TensorMemoryAllocator) (idx : ℕ) : TensorMemoryAllocator :=
  match a.objects[idx]? with
  | none => a
  | some memoryObj =>
      if !memoryObj.valid then a
      else
        { addressManager := a.addressManager.free memoryObj.address memoryObj.phySize
          numActiveAllocations := a.numActiveAllocations - 1
          objects := a.objects.set idx memoryObj.invalidate }

def mergeObj (c : Coalescing) (idx : ℕ) : Coalescing :=
  match c.objects[idx]? with
  | none => c
  | some memoryObj =>
      if !memoryObj.valid then c
      else
        let objects := c.objects.set idx memoryObj.invalidate
        match c.curr with
        | none =>
            ⟨objects, c.coalescedBlocks, some (memoryObj.address, memoryObj.phySize, 1)⟩
        | some (currStart, currSize, currCount) =>
            if currStart + currSize = memoryObj.address then
              ⟨objects, c.coalescedBlocks,
                some (currStart, currSize + memoryObj.phySize, currCount + 1)⟩
            else
              ⟨objects, c.coalescedBlocks ++ [(currStart, currSize, currCount)],
                some (memoryObj.address, memoryObj.phySize, 1)⟩

def addressOf (idx : ℕ) : ℕ :=
  (a.objects[idx]?.map TensorObj.address).getD 0

def batchedFree (idxs : List ℕ) : TensorMemoryAllocator :=
  if idxs.isEmpty then a
  else
    let sorted := idxs.mergeSort (fun i j => decide (a.addressOf i ≤ a.addressOf j))
    let c := sorted.foldl mergeObj ⟨a.objects, [], none⟩
    let blocks := c.coalescedBlocks ++ c.curr.toList
    { addressManager := blocks.foldl (fun m b => m.free b.1 b.2.1) a.addressManager
      numActiveAllocations :=
        a.numActiveAllocations - ((blocks.map (fun b => b.2.2)).sum : ℕ)
      objects := c.objects }

def sbrk (a : TensorMemoryAllocator) (size : ℕ) : TensorMemoryAllocator :=
  { a with addressManager := a.addressManager.sbrk size }

end TensorMemoryAllocator

inductive TensorOp where
  | allocate (rawSize : ℕ)
  | batchedAllocate (unitRawSize : ℕ) (batchSize : ℤ)
  | free (idx : ℕ)
  | batchedFree (idxs : List ℕ)
  | sbrk (size : ℕ)

namespace TensorMemoryAllocator

def exec : TensorOp → TensorMemoryAllocator
  | .allocate rawSize => (a.allocate rawSize).2
  | .batchedAllocate unitRawSize batchSize => (a.batchedAllocate unitRawSize batchSize).2
  | .free idx => a.free idx
  | .batchedFree idxs => a.batchedFree idxs
  | .sbrk size => a.sbrk size

def SizesPositive : TensorOp → Prop
  | .allocate rawSize => 0 < rawSize
  | .batchedAllocate unitRawSize _ => 0 < unitRawSize
  | _ => True

instance (op : TensorOp) : Decidable (SizesPositive op) := by
  cases op <;> simp only [SizesPositive] <;> infer_instance

open AddressSpace hiding exec

variable (objects : List TensorObj)

def regions : List Region :=
  (objects.filter TensorObj.valid).map TensorObj.region

def freed (idxs : List ℕ) : List TensorObj :=
  objects.mapIdx (fun i memoryObj => if i ∈ idxs then memoryObj.invalidate else memoryObj)

def space : AddressSpace :=
  ⟨{ a.addressManager with align := 1 }, regions a.objects⟩

structure Owned (a : TensorMemoryAllocator) : Prop where
  align : 0 < a.addressManager.align
  tiled : Tiled 0 a.space
  active : a.numActiveAllocations = (regions a.objects).length

structure FreedTo (a b : TensorMemoryAllocator) : Prop where
  owned : Owned b
  size : b.addressManager.size = a.addressManager.size
  align : b.addressManager.align = a.addressManager.align
  gone : ∃ rs, (regions a.objects).Perm (rs ++ regions b.objects) ∧
    ∀ x, Touched b.addressManager.explicitList x ↔
      Touched a.addressManager.explicitList x ∨ Touched rs x

variable {a b c : TensorMemoryAllocator}

theorem FreedTo.refl (h : Owned a) : FreedTo a a :=
  ⟨h, rfl, rfl, [], .refl _, fun _ => (or_iff_left (by simp [Touched])).symm⟩

theorem FreedTo.trans (hab : FreedTo a b) (hbc : FreedTo b c) : FreedTo a c := by
  obtain ⟨rs, hrs, htouched⟩ := hab.gone
  obtain ⟨ss, hss, htouched'⟩ := hbc.gone
  refine ⟨hbc.owned, hbc.size.trans hab.size, hbc.align.trans hab.align, rs ++ ss, ?_, fun x => ?_⟩
  · rw [List.append_assoc]
    exact hrs.trans (hss.append_left rs)
  · rw [htouched', htouched, touched_append, or_assoc]

theorem FreedTo.unique (hb : FreedTo a b) (hc : FreedTo a c) (h : b.objects = c.objects) :
    b = c := by
  obtain ⟨rs, hrs, htouched⟩ := hb.gone
  obtain ⟨ss, hss, htouched'⟩ := hc.gone
  have hsame : rs.Perm ss := by
    rw [h] at hrs
    exact (List.perm_append_right_iff _).mp (hrs.symm.trans hss)
  have hmanager : ({ b.addressManager with align := 1 } : AddressManager) =
      { c.addressManager with align := 1 } := by
    apply eq_of_tiled hb.owned.tiled hc.owned.tiled
    · rw [h]
    · exact hb.size.trans hc.size.symm
    · intro x
      rw [htouched, htouched', touched_congr (fun r => hsame.mem_iff) x]
  have halign : b.addressManager.align = c.addressManager.align := hb.align.trans hc.align.symm
  have hactive : b.numActiveAllocations = c.numActiveAllocations := by
    rw [hb.owned.active, hc.owned.active, h]
  rcases b with ⟨⟨size, align, list, total⟩, active, objects⟩
  rcases c with ⟨⟨size', align', list', total'⟩, active', objects'⟩
  simp_all

theorem getElem?_freed (idxs : List ℕ) (i : ℕ) :
    (freed objects idxs)[i]? =
      objects[i]?.map (fun o => if i ∈ idxs then o.invalidate else o) := List.getElem?_mapIdx

theorem freed_nil : freed objects [] = objects := by
  apply List.ext_getElem?
  intro i
  rw [getElem?_freed]
  simp

theorem freed_append (idxs jdxs : List ℕ) :
    freed objects (idxs ++ jdxs) = freed (freed objects idxs) jdxs := by
  apply List.ext_getElem?
  intro i
  rw [getElem?_freed, getElem?_freed, getElem?_freed, Option.map_map]
  congr 1
  funext o
  by_cases hi : i ∈ idxs <;> by_cases hj : i ∈ jdxs <;> simp [hi, hj, TensorObj.invalidate]

theorem freed_congr {idxs jdxs : List ℕ} (h : ∀ i, i ∈ idxs ↔ i ∈ jdxs) (objects : List TensorObj) :
    freed objects idxs = freed objects jdxs := by
  simp only [freed, h]

variable {i : ℕ}

theorem freed_of_absent {objects : List TensorObj} (h : objects[i]? = none) :
    freed objects [i] = objects := by
  apply List.ext_getElem?
  intro j
  rw [getElem?_freed]
  by_cases hj : j = i
  · rw [hj, h, Option.map_none]
  · simp [hj]

variable {o : TensorObj}

theorem freed_of_invalid {objects : List TensorObj} (h : objects[i]? = some o)
    (hvalid : o.valid = false) : freed objects [i] = objects := by
  apply List.ext_getElem?
  intro j
  rw [getElem?_freed]
  by_cases hj : j = i
  · rw [hj, h]
    simp [TensorObj.invalidate, ← hvalid]
  · simp [hj]

theorem freed_of_valid {objects : List TensorObj} (h : objects[i]? = some o) :
    freed objects [i] = objects.set i o.invalidate := by
  apply List.ext_getElem?
  intro j
  obtain ⟨hi, _⟩ := List.getElem?_eq_some_iff.mp h
  rw [getElem?_freed, List.getElem?_set]
  by_cases hj : j = i
  · rw [hj, h]
    simp [hi]
  · simp [hj, Ne.symm hj]

theorem regions_set {objects : List TensorObj} (h : objects[i]? = some o)
    (hvalid : o.valid = true) :
    (regions objects).Perm (o.region :: regions (objects.set i o.invalidate)) := by
  induction objects generalizing i with
  | nil => simp at h
  | cons p objects ih =>
    cases i with
    | zero =>
      obtain rfl : p = o := by simpa using h
      rw [List.set_cons_zero, regions, regions, List.filter_cons_of_pos hvalid,
        List.filter_cons_of_neg (by simp [TensorObj.invalidate]), List.map_cons]
    | succ i =>
      have hrest := ih (i := i) (by simpa using h)
      rw [List.set_cons_succ]
      cases hp : p.valid with
      | true =>
        rw [regions, List.filter_cons_of_pos hp, regions, List.filter_cons_of_pos hp,
          List.map_cons, List.map_cons]
        exact (hrest.cons p.region).trans (.swap _ _ _)
      | false =>
        rw [regions, List.filter_cons_of_neg (by simp [hp]), regions,
          List.filter_cons_of_neg (by simp [hp])]
        exact hrest

variable (m : AddressManager)

theorem freeAll_align (alignBytes : ℕ) (gs : List (List Region)) :
    freeAll { m with align := alignBytes } gs = { freeAll m gs with align := alignBytes } := by
  induction gs generalizing m with
  | nil => rfl
  | cons g gs ih => exact ih (m.free (AddressSpace.address g) (Region.total g))

theorem align_freeAll (gs : List (List Region)) : (freeAll m gs).align = m.align := by
  induction gs generalizing m with
  | nil => rfl
  | cons g gs ih => exact ih (m.free (AddressSpace.address g) (Region.total g))

theorem freedTo_of_groups (h : Owned a) {gs : List (List Region)} {objects : List TensorObj}
    (hperm : (regions a.objects).Perm (gs.flatten ++ regions objects))
    (hgs : ∀ g ∈ gs, g ≠ [] ∧ Chained (AddressSpace.address g) g) :
    FreedTo a ⟨freeAll a.addressManager gs,
      a.numActiveAllocations - (gs.map List.length).sum, objects⟩ := by
  obtain ⟨htiled, hsize, htouched⟩ := freeAll_spec (h.tiled.perm hperm) hgs
  rw [freeAll_align] at htiled hsize htouched
  have hlength := hperm.length_eq
  rw [List.length_append, List.length_flatten] at hlength
  refine ⟨⟨?_, htiled, ?_⟩, hsize, align_freeAll _ _, gs.flatten, hperm, htouched⟩
  · rw [align_freeAll]
    exact h.align
  · rw [h.active, hlength, Nat.cast_add, add_sub_cancel_left]

theorem free_spec (h : Owned a) (idx : ℕ) :
    FreedTo a (a.free idx) ∧ (a.free idx).objects = freed a.objects [idx] := by
  cases hobj : a.objects[idx]? with
  | none =>
    simp only [free, hobj]
    exact ⟨.refl h, (freed_of_absent hobj).symm⟩
  | some o =>
    cases hvalid : o.valid with
    | false =>
      simp only [free, hobj, hvalid, Bool.not_false, if_true]
      exact ⟨.refl h, (freed_of_invalid hobj hvalid).symm⟩
    | true =>
      simp only [free, hobj, hvalid, Bool.not_true, Bool.false_eq_true, if_false]
      refine ⟨?_, (freed_of_valid hobj).symm⟩
      have hchained : ∀ g ∈ [[o.region]], g ≠ [] ∧ Chained (AddressSpace.address g) g := by
        simp [AddressSpace.address, Chained]
      have hperm : (regions a.objects).Perm
          ([[o.region]].flatten ++ regions (a.objects.set idx o.invalidate)) :=
        regions_set hobj hvalid
      exact freedTo_of_groups h hperm hchained

theorem foldl_free_spec (h : Owned a) (idxs : List ℕ) :
    FreedTo a (idxs.foldl free a) ∧ (idxs.foldl free a).objects = freed a.objects idxs := by
  induction idxs generalizing a with
  | nil => exact ⟨.refl h, (freed_nil _).symm⟩
  | cons idx idxs ih =>
    obtain ⟨hfirst, hobjects⟩ := free_spec h idx
    obtain ⟨hrest, hobjects'⟩ := ih hfirst.owned
    refine ⟨hfirst.trans hrest, ?_⟩
    rw [List.foldl_cons, hobjects', hobjects, ← freed_append, List.singleton_append]

def blockOf (g : List Region) : ℕ × ℕ × ℕ := (AddressSpace.address g, Region.total g, g.length)

structure Grouped (objects : List TensorObj) (c : Coalescing) (gs : List (List Region)) : Prop where
  blocks : c.coalescedBlocks ++ c.curr.toList = gs.map blockOf
  chained : ∀ g ∈ gs, g ≠ [] ∧ Chained (AddressSpace.address g) g
  perm : (regions objects).Perm (gs.flatten ++ regions c.objects)

theorem chained_concat {start : ℕ} {g : List Region} {r : Region} (h : Chained start g)
    (hr : r.start = start + Region.total g) : Chained start (g ++ [r]) := by
  induction g generalizing start with
  | nil => exact ⟨by simpa using hr, trivial⟩
  | cons s g ih =>
    obtain ⟨rfl, hrest⟩ := h
    refine ⟨rfl, ih hrest ?_⟩
    rw [hr, total_cons, stop]
    omega

theorem address_concat {g : List Region} (hne : g ≠ []) (r : Region) :
    AddressSpace.address (g ++ [r]) = AddressSpace.address g := by
  obtain ⟨s, rest, rfl⟩ := List.exists_cons_of_ne_nil hne
  rfl

theorem perm_grown {rs ts ls ms : List Region} {r : Region} (h : rs.Perm (ts ++ ls))
    (hls : ls.Perm (r :: ms)) : rs.Perm (ts ++ [r] ++ ms) := by
  rw [List.append_assoc, List.singleton_append]
  exact h.trans (hls.append_left ts)

variable {objects : List TensorObj} {t : Coalescing} {gs : List (List Region)}

theorem Grouped.apart (h : Grouped objects t gs) {idx : ℕ} (hobj : t.objects[idx]? = some o)
    (hvalid : o.valid = true) :
    Grouped objects ⟨t.objects.set idx o.invalidate, t.coalescedBlocks ++ t.curr.toList,
      some (o.address, o.phySize, 1)⟩ (gs ++ [[o.region]]) := by
  refine ⟨?_, fun g hg => ?_, ?_⟩
  · rw [List.map_append, ← h.blocks]
    simp [blockOf, AddressSpace.address, TensorObj.region]
  · rcases List.mem_append.mp hg with hg | hg
    · exact h.chained g hg
    · rw [List.mem_singleton.mp hg]
      exact ⟨List.cons_ne_nil _ _, rfl, trivial⟩
  · rw [List.flatten_append, List.flatten_singleton]
    exact perm_grown h.perm (regions_set hobj hvalid)

variable {currStart currSize currCount : ℕ}

theorem Grouped.last (h : Grouped objects t gs)
    (hcurr : t.curr = some (currStart, currSize, currCount)) :
    ∃ fs g, gs = fs ++ [g] ∧ t.coalescedBlocks = fs.map blockOf ∧
      AddressSpace.address g = currStart ∧ Region.total g = currSize ∧ g.length = currCount := by
  have hblocks := h.blocks
  rw [hcurr, Option.toList_some] at hblocks
  obtain ⟨fs, es, rfl, hfs, hes⟩ := List.append_eq_map_iff.mp hblocks
  cases es with
  | nil => simp at hes
  | cons g es =>
    cases es with
    | nil => exact ⟨fs, g, rfl, hfs.symm, by simpa [blockOf] using hes⟩
    | cons => simp at hes

theorem Grouped.grow (h : Grouped objects t gs) {idx : ℕ} (hobj : t.objects[idx]? = some o)
    (hvalid : o.valid = true) (hcurr : t.curr = some (currStart, currSize, currCount))
    (hnext : currStart + currSize = o.address) :
    ∃ gs', Grouped objects ⟨t.objects.set idx o.invalidate, t.coalescedBlocks,
      some (currStart, currSize + o.phySize, currCount + 1)⟩ gs' := by
  obtain ⟨fs, g, rfl, hfs, hstart, hsize, hcount⟩ := h.last hcurr
  obtain ⟨hne, hchain⟩ := h.chained g (by simp)
  refine ⟨fs ++ [g ++ [o.region]], ?_, fun g' hg' => ?_, ?_⟩
  · rw [List.map_append, hfs]
    simp [blockOf, address_concat hne, hstart, ← hsize, ← hcount, TensorObj.region]
  · rcases List.mem_append.mp hg' with hg' | hg'
    · exact h.chained g' (by simp [hg'])
    · rw [List.mem_singleton.mp hg', address_concat hne]
      refine ⟨by simp, chained_concat hchain ?_⟩
      rw [hstart, hsize, hnext]
      rfl
  · have hgrown := perm_grown h.perm (regions_set hobj hvalid)
    rw [List.flatten_append, List.flatten_singleton] at hgrown ⊢
    rwa [← List.append_assoc fs.flatten]

theorem grouped_mergeObj (h : Grouped objects t gs) (idx : ℕ) :
    (∃ gs', Grouped objects (mergeObj t idx) gs') ∧
      (mergeObj t idx).objects = freed t.objects [idx] := by
  cases hobj : t.objects[idx]? with
  | none =>
    simp only [mergeObj, hobj]
    exact ⟨⟨gs, h⟩, (freed_of_absent hobj).symm⟩
  | some o =>
    cases hvalid : o.valid with
    | false =>
      simp only [mergeObj, hobj, hvalid, Bool.not_false, if_true]
      exact ⟨⟨gs, h⟩, (freed_of_invalid hobj hvalid).symm⟩
    | true =>
      have hapart := h.apart hobj hvalid
      cases hcurr : t.curr with
      | none =>
        rw [hcurr, Option.toList_none, List.append_nil] at hapart
        simp only [mergeObj, hobj, hvalid, hcurr, Bool.not_true, Bool.false_eq_true, if_false]
        exact ⟨⟨_, hapart⟩, (freed_of_valid hobj).symm⟩
      | some curr =>
        obtain ⟨currStart, currSize, currCount⟩ := curr
        rw [hcurr, Option.toList_some] at hapart
        simp only [mergeObj, hobj, hvalid, hcurr, Bool.not_true, Bool.false_eq_true, if_false]
        split_ifs with hnext
        · exact ⟨h.grow hobj hvalid hcurr hnext, (freed_of_valid hobj).symm⟩
        · exact ⟨⟨_, hapart⟩, (freed_of_valid hobj).symm⟩

theorem grouped_foldl (h : Grouped objects t gs) (idxs : List ℕ) :
    (∃ gs', Grouped objects (idxs.foldl mergeObj t) gs') ∧
      (idxs.foldl mergeObj t).objects = freed t.objects idxs := by
  induction idxs generalizing t gs with
  | nil => exact ⟨⟨gs, h⟩, (freed_nil _).symm⟩
  | cons idx idxs ih =>
    obtain ⟨⟨gs', hgs'⟩, hobjects⟩ := grouped_mergeObj h idx
    obtain ⟨hrest, hobjects'⟩ := ih hgs'
    refine ⟨hrest, ?_⟩
    rw [List.foldl_cons, hobjects', hobjects, ← freed_append, List.singleton_append]

theorem batchedFree_spec (h : Owned a) (idxs : List ℕ) :
    FreedTo a (a.batchedFree idxs) ∧ (a.batchedFree idxs).objects = freed a.objects idxs := by
  cases hempty : idxs.isEmpty with
  | true =>
    obtain rfl := List.isEmpty_iff.mp hempty
    exact ⟨.refl h, (freed_nil _).symm⟩
  | false =>
    simp only [batchedFree, hempty, Bool.false_eq_true, if_false]
    generalize hsorted : idxs.mergeSort _ = sorted
    have hmem : ∀ i, i ∈ sorted ↔ i ∈ idxs := by
      intro i
      rw [← hsorted]
      exact List.mem_mergeSort
    have hstart : Grouped a.objects ⟨a.objects, [], none⟩ [] :=
      ⟨rfl, fun g hg => absurd hg List.not_mem_nil, .refl _⟩
    obtain ⟨⟨gs, hgs⟩, hobjects⟩ := grouped_foldl hstart sorted
    refine ⟨?_, hobjects.trans (freed_congr hmem _)⟩
    have hfreed := freedTo_of_groups h hgs.perm hgs.chained
    rw [hgs.blocks, List.foldl_map, List.map_map]
    exact hfreed

theorem owned_create (addressSpace : ℕ) {alignBytes : ℕ} (halign : 0 < alignBytes) :
    Owned (create addressSpace alignBytes) where
  align := halign
  tiled := tiled_init 0 addressSpace
  active := rfl

theorem computeAlignedSize_unaligned (size : ℕ) :
    ({ m with align := 1 } : AddressManager).computeAlignedSize size = size := by
  apply Nat.eq_of_testBit_eq
  intro i
  simp [AddressManager.computeAlignedSize, Nat.testBit_ldiff]

theorem allocate_unaligned {m m' : AddressManager} {size : ℕ} {p : ℕ × ℕ}
    (h : m.allocate size = (.ok p, m')) :
    ({ m with align := 1 } : AddressManager).allocate (m.computeAlignedSize size) =
        (.ok p, { m' with align := 1 }) ∧ p.2 = m.computeAlignedSize size ∧ m'.align = m.align := by
  cases hfind : m.explicitList.find? (AddressManager.fits (m.computeAlignedSize size)) with
  | none =>
    obtain ⟨e, herror⟩ := AddressManager.allocate_eq_error hfind
    rw [herror] at h
    simp at h
  | some b =>
    rw [AddressManager.allocate_eq hfind] at h
    obtain ⟨hp, rfl⟩ := Prod.mk.inj h
    obtain rfl := Except.ok.inj hp
    have hunaligned := computeAlignedSize_unaligned m (m.computeAlignedSize size)
    refine ⟨?_, rfl, rfl⟩
    rw [AddressManager.allocate_eq (b := b) (by rw [hunaligned]; exact hfind), hunaligned]

theorem batchedAllocate_unaligned {m m' : AddressManager} {size : ℕ} {n : ℤ} {ps : List (ℕ × ℕ)}
    (h : m.batchedAllocate size n = (.ok ps, m')) :
    ({ m with align := 1 } : AddressManager).batchedAllocate (m.computeAlignedSize size) n =
        (.ok ps, { m' with align := 1 }) ∧ (∀ p ∈ ps, p.2 = m.computeAlignedSize size) ∧
      (ps.length : ℤ) = n ∧ m'.align = m.align := by
  obtain ⟨hzero, hps, hm⟩ := AddressManager.batchedAllocate_ok_iff.mp h
  have hunaligned := computeAlignedSize_unaligned m (m.computeAlignedSize size)
  have haccount := AddressManager.pieces_account (m.computeAlignedSize size) m.explicitList n
  rw [hzero, hps, zero_add] at haccount
  refine ⟨AddressManager.batchedAllocate_ok_iff.mpr ?_, fun p hp => ?_, haccount, ?_⟩
  · rw [hunaligned]
    exact ⟨hzero, hps, by rw [← hm]⟩
  · rw [← hps] at hp
    obtain ⟨b, _, i, rfl⟩ := AddressManager.mem_allocateResult p hp
    rfl
  · rw [← hm]

theorem computeAlignedSize_idem {m : AddressManager} (halign : 0 < m.align) (size : ℕ) :
    m.computeAlignedSize (m.computeAlignedSize size) = m.computeAlignedSize size := by
  have hadd : ∀ x, x + m.align - 1 = x + (m.align - 1) := fun x => by omega
  rw [AddressManager.computeAlignedSize, hadd (m.computeAlignedSize size),
    AddressManager.computeAlignedSize, Alignment.ldiff_add_ldiff]

theorem regions_append (objects news : List TensorObj) (h : ∀ o ∈ news, o.valid = true) :
    regions (objects ++ news) = regions objects ++ news.map TensorObj.region := by
  rw [regions, List.filter_append, List.filter_eq_self.mpr h, List.map_append, regions]

theorem Owned.allocate (h : Owned a) {rawSize : ℕ} (hpos : 0 < rawSize) :
    Owned (a.allocate rawSize).2 := by
  rcases hm : a.addressManager.allocate rawSize with ⟨e | p, m⟩
  · simp only [TensorMemoryAllocator.allocate, hm]
    exact h
  · obtain ⟨hunaligned, hsize, halign⟩ := allocate_unaligned hm
    have htiled := h.tiled.allocate (AddressManager.computeAlignedSize_pos h.align hpos)
    have hstep : AddressSpace.exec a.space
        (.allocate (a.addressManager.computeAlignedSize rawSize)) =
        ⟨{ m with align := 1 }, regions a.objects ++ [AddressManager.asRegion p]⟩ := by
      simp only [AddressSpace.exec, space, hunaligned]
    simp only [TensorMemoryAllocator.allocate, hm]
    refine ⟨halign ▸ h.align, ?_, ?_⟩
    · rw [space, regions_append _ _ (by simp)]
      rw [hstep] at htiled
      exact htiled
    · rw [regions_append _ _ (by simp), h.active]
      simp

theorem Owned.batchedAllocate (h : Owned a) {unitRawSize : ℕ} (hpos : 0 < unitRawSize) (n : ℤ) :
    Owned (a.batchedAllocate unitRawSize n).2 := by
  have haligned := AddressManager.computeAlignedSize_pos h.align hpos
  have hidem := computeAlignedSize_idem h.align unitRawSize
  rcases hm : a.addressManager.batchedAllocate
    (a.addressManager.computeAlignedSize unitRawSize) n with ⟨e | ps, m⟩
  · simp only [TensorMemoryAllocator.batchedAllocate, hm]
    exact h
  · obtain ⟨hunaligned, hsizes, hlength, halign⟩ := batchedAllocate_unaligned hm
    rw [hidem] at hunaligned hsizes
    have htiled := h.tiled.batchedAllocate haligned n
    have hstep : AddressSpace.exec a.space
        (.batchedAllocate (a.addressManager.computeAlignedSize unitRawSize) n) =
        ⟨{ m with align := 1 }, regions a.objects ++ ps.map AddressManager.asRegion⟩ := by
      simp only [AddressSpace.exec, space, hunaligned]
    have hvalid : ∀ o ∈ (ps.map Prod.fst).map
        (batchObj (a.addressManager.computeAlignedSize unitRawSize)), o.valid = true := by
      intro o ho
      obtain ⟨address, _, rfl⟩ := List.mem_map.mp ho
      rfl
    have hregions : ((ps.map Prod.fst).map
        (batchObj (a.addressManager.computeAlignedSize unitRawSize))).map TensorObj.region =
        ps.map AddressManager.asRegion := by
      rw [List.map_map, List.map_map]
      refine List.map_congr_left fun p hp => ?_
      simp only [Function.comp_apply, batchObj, TensorObj.region, AddressManager.asRegion,
        hsizes p hp]
    simp only [TensorMemoryAllocator.batchedAllocate, hm]
    refine ⟨halign ▸ h.align, ?_, ?_⟩
    · rw [space, regions_append _ _ hvalid, hregions]
      rw [hstep] at htiled
      exact htiled
    · rw [regions_append _ _ hvalid, hregions, h.active, ← hlength]
      simp

theorem Owned.sbrk (h : Owned a) (size : ℕ) : Owned (a.sbrk size) where
  align := h.align
  tiled := by
    have htiled := h.tiled.sbrk (a.addressManager.computeAlignedSize size)
    have hunaligned := computeAlignedSize_unaligned a.addressManager
      (a.addressManager.computeAlignedSize size)
    simp only [AddressSpace.exec, space, AddressManager.sbrk, hunaligned] at htiled
    exact htiled
  active := h.active

theorem owned_exec (a : TensorMemoryAllocator) (op : TensorOp) (h : Owned a)
    (hop : SizesPositive op) : Owned (a.exec op) := by
  cases op with
  | allocate rawSize => exact h.allocate hop
  | batchedAllocate unitRawSize n => exact h.batchedAllocate hop n
  | free idx => exact (free_spec h idx).1.owned
  | batchedFree idxs => exact (batchedFree_spec h idxs).1.owned
  | sbrk size => exact h.sbrk size

theorem batchedFree_eq_frees (addressSpace alignBytes : ℕ) (halign : 0 < alignBytes)
    (ops : List TensorOp) (hops : ∀ op ∈ ops, SizesPositive op) (idxs idxs' : List ℕ)
    (hperm : idxs'.Perm idxs) :
    let a := Execution.final exec (create addressSpace alignBytes) ops
    a.batchedFree idxs = idxs'.foldl free a := by
  intro a
  have howned : Owned a := Execution.invariant_final owned_exec
    (owned_create addressSpace halign) (Execution.along_of_mem hops _)
  obtain ⟨hbatched, hobjects⟩ := batchedFree_spec howned idxs
  obtain ⟨hsingle, hobjects'⟩ := foldl_free_spec howned idxs'
  apply hbatched.unique hsingle
  rw [hobjects, hobjects']
  exact freed_congr (fun i => hperm.mem_iff.symm) a.objects

def sampleOps : List TensorOp :=
  [.allocate 3, .batchedAllocate 5 2, .allocate 4, .allocate 2, .free 3, .sbrk 7]

theorem batchedFree_eq_frees_sampleOps :
    0 < 4 ∧ (∀ op ∈ sampleOps, SizesPositive op) ∧ [2, 4, 0, 3, 2].Perm [4, 3, 2, 2, 0] ∧
      (Execution.final exec (create 40 4) sampleOps).batchedFree [4, 3, 2, 2, 0] =
        [2, 4, 0, 3, 2].foldl free (Execution.final exec (create 40 4) sampleOps) := by
  have hops : ∀ op ∈ sampleOps, SizesPositive op := by decide
  have hperm : [2, 4, 0, 3, 2].Perm [4, 3, 2, 2, 0] := by decide
  exact ⟨by decide, hops, hperm,
    batchedFree_eq_frees 40 4 (by decide) sampleOps hops [4, 3, 2, 2, 0] [2, 4, 0, 3, 2] hperm⟩

def emptyObjOps : List TensorOp := [.allocate 0, .allocate 4]

theorem not_batchedFree_eq_frees_emptyObj :
    (Execution.final exec (create 4 4) emptyObjOps).batchedFree [0, 1] ≠
      [0, 1].foldl free (Execution.final exec (create 4 4) emptyObjOps) := by
  have hsorted : [0, 1].mergeSort (fun i j => decide
      ((Execution.final exec (create 4 4) emptyObjOps).addressOf i ≤
        (Execution.final exec (create 4 4) emptyObjOps).addressOf j)) = [0, 1] :=
    List.mergeSort_of_pairwise (by decide +kernel)
  intro h
  have hlists := congrArg (fun a => a.addressManager.explicitList.length) h
  rw [batchedFree, hsorted] at hlists
  revert hlists
  decide +kernel

end TensorMemoryAllocator

end LMCache
