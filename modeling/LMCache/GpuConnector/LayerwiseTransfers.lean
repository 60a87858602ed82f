import LMCache.Foundations.Cells
import LMCache.Foundations.Lists
import LMCache.Utils.KeyStrings

namespace LMCache

open Slice Utils Function List Except Nat

inductive LayerwiseError where
  | assertionError
  | attributeError
  | indexError
  | runtimeError
  | rowMissing
deriving DecidableEq

inductive KVFormat where
  | kvT2d
  | kvMla
deriving DecidableEq

structure LayerObj (V : Type) where
  fmt : KVFormat
  rows : List V
deriving DecidableEq

structure LayerwiseConnector where
  numLayers : ℕ
  useGpu : Bool
  useMla : Bool
  bufferGranted : Bool

section Rows

variable {V : Type}

def transferD2H (rows : List V) (kv : ℕ → V) (slots : List ℕ) : Except LayerwiseError (List V) :=
  if rows.length < slots.length then .error .rowMissing
  else .ok (slots.map kv ++ rows.drop slots.length)

def transferH2D (rows : List V) (kv : ℕ → V) (slots : List ℕ) : Except LayerwiseError (ℕ → V) :=
  if rows.length < slots.length then .error .rowMissing else .ok (Cells.write kv (slots.zip rows))

def copyRows (dst src : List V) : Except LayerwiseError (List V) :=
  if src.length = dst.length then .ok src
  else if src.length = 1 then .ok (dst.flatMap fun _ => src)
  else .error .runtimeError

end Rows

namespace LayerwiseConnector

variable {V : Type} (c : LayerwiseConnector)

def lazyInitializeBuffer : Except LayerwiseError Bool :=
  if c.useGpu then if c.useMla then .error .assertionError else .ok true else .ok false

def fullSlots (slotMapping : List ℕ) (chunks : List (ℕ × ℕ)) : List ℕ :=
  chunks.flatMap fun chunk => slice slotMapping chunk.1 chunk.2

def catSlots (slotMapping : List ℕ) (chunks : List (ℕ × ℕ)) : Except LayerwiseError (List ℕ) :=
  if chunks = [] then .error .runtimeError else .ok (fullSlots slotMapping chunks)

def allocateBuffer : Except LayerwiseError ℕ :=
  if c.useGpu then if c.bufferGranted then .ok 1 else .error .assertionError else .ok 0

def fromChunks (c : LayerwiseConnector) (hasFormat : Bool) (kv : ℕ → V) (buffer : List V)
    (slotMapping : List ℕ) (offset : ℕ) :
    List (ℕ × ℕ) → List (LayerObj V) → Except LayerwiseError (List (LayerObj V))
  | (start, stop) :: chunks, obj :: objs => do
      let rows ← (if c.useGpu then copyRows obj.rows (slice buffer (start - offset) (stop - offset))
        else if hasFormat then transferD2H obj.rows kv (slice slotMapping start stop)
        else .error .attributeError)
      let objs ← fromChunks c hasFormat kv buffer slotMapping offset chunks objs
      .ok (⟨if c.useMla then .kvMla else obj.fmt, rows⟩ :: objs)
  | _, objs => .ok objs

def fromLayers (c : LayerwiseConnector) (hasFormat : Bool) (kv : ℕ → ℕ → V) (buffer : List V)
    (slotMapping : List ℕ) (chunks : List (ℕ × ℕ)) (slots : List ℕ) (offset : ℕ) :
    (layers layerId : ℕ) → List (List (LayerObj V)) →
      Except LayerwiseError (List (List (LayerObj V)))
  | 0, _, objs => .ok objs
  | _ + 1, _, [] => .error .indexError
  | layers + 1, layerId, layer :: objs => do
      let buffer ← (if c.useGpu then transferD2H buffer (kv layerId) slots else .ok buffer)
      let layer ← c.fromChunks hasFormat (kv layerId) buffer slotMapping offset chunks layer
      let objs ← fromLayers c hasFormat kv buffer slotMapping chunks slots offset layers (layerId + 1)
        objs
      .ok (layer :: objs)

def batchedFromGpu (kv : ℕ → ℕ → V) (slotMapping : List ℕ) (chunks : List (ℕ × ℕ))
    (buffer : List V) (objs : List (List (LayerObj V))) :
    Except LayerwiseError (List (List (LayerObj V)) × ℕ) := do
  let hasFormat ← c.lazyInitializeBuffer
  let slots ← catSlots slotMapping chunks
  let refs ← c.allocateBuffer
  let objs ← c.fromLayers hasFormat kv buffer slotMapping chunks slots (chunks.head?.elim 0 Prod.fst)
    c.numLayers 0 objs
  .ok (objs, refs - 1)

def toChunks (c : LayerwiseConnector) (hasFormat : Bool) (slots : List ℕ) (offset : ℕ) :
    List (ℕ × ℕ) → List (LayerObj V) → List V → (ℕ → V) → Except LayerwiseError (List V × (ℕ → V))
  | (start, stop) :: chunks, obj :: objs, buffer, kv =>
      if obj.fmt ≠ if c.useMla then .kvMla else .kvT2d then .error .assertionError
      else if c.useGpu then do
        let part ← copyRows (slice buffer (start - offset) (stop - offset)) obj.rows
        toChunks c hasFormat slots offset chunks objs
          (buffer.take (start - offset) ++ part ++ buffer.drop (stop - offset)) kv
      else if hasFormat then do
        let kv ← transferH2D obj.rows kv slots
        toChunks c hasFormat slots offset chunks objs buffer kv
      else .error .attributeError
  | _, _, buffer, kv => .ok (buffer, kv)

def toLayers (c : LayerwiseConnector) (hasFormat : Bool) (chunks : List (ℕ × ℕ)) (slots : List ℕ)
    (offset : ℕ) : (layers layerId : ℕ) → List (List (LayerObj V)) → List V → (ℕ → ℕ → V) →
      Except LayerwiseError (ℕ → ℕ → V)
  | 0, _, _, _, kv => .ok kv
  | _ + 1, _, [], _, _ => .error .indexError
  | layers + 1, layerId, layer :: objs, buffer, kv => do
      let (buffer, paged) ← c.toChunks hasFormat slots offset chunks layer buffer (kv layerId)
      let paged ← (if c.useGpu then transferH2D buffer paged slots else .ok paged)
      toLayers c hasFormat chunks slots offset layers (layerId + 1) objs buffer
        (update kv layerId paged)

def batchedToGpu (kv : ℕ → ℕ → V) (slotMapping : List ℕ) (chunks : List (ℕ × ℕ)) (buffer : List V)
    (objs : List (List (LayerObj V))) :
    Except LayerwiseError ((ℕ → ℕ → V) × ℕ) := do
  let hasFormat ← c.lazyInitializeBuffer
  let slots ← catSlots slotMapping chunks
  let refs ← c.allocateBuffer
  let kv ← c.toLayers hasFormat chunks slots (chunks.head?.elim 0 Prod.fst) c.numLayers 0 objs buffer kv
  .ok (kv, refs - 1)

structure Increasing (slotMapping : List ℕ) (chunks : List (ℕ × ℕ)) : Prop where
  inside : ∀ chunk ∈ chunks, chunk.1 ≤ chunk.2 ∧ chunk.2 ≤ slotMapping.length
  apart : chunks.Pairwise fun a b => a.2 ≤ b.1

def Contiguous (chunks : List (ℕ × ℕ)) : Prop := chunks.IsChain fun a b => a.2 = b.1

structure Shaped (c : LayerwiseConnector) (chunks : List (ℕ × ℕ)) (objs : List (List (LayerObj V))) :
    Prop where
  layers : objs.length = c.numLayers
  rows : ∀ layer ∈ objs, layer.map (fun obj => obj.rows.length) = chunks.map fun ch => ch.2 - ch.1

def StoresAll (V : Type) (c : LayerwiseConnector) (slotMapping : List ℕ) (chunks : List (ℕ × ℕ)) :
    Prop :=
  ∀ (kv : ℕ → ℕ → V) (buffer : List V) (objs : List (List (LayerObj V))),
    buffer.length = (fullSlots slotMapping chunks).length → c.Shaped chunks objs →
    ∃ stored, c.batchedFromGpu kv slotMapping chunks buffer objs = .ok (stored, 0) ∧
      stored.map (map LayerObj.rows) = (range c.numLayers).map fun l =>
        chunks.map fun ch => (slice slotMapping ch.1 ch.2).map (kv l)

def LoadsAll (V : Type) (c : LayerwiseConnector) (slotMapping : List ℕ) (chunks : List (ℕ × ℕ)) :
    Prop :=
  ∀ (kv : ℕ → ℕ → V) (buffer : List V) (objs : List (List (LayerObj V))),
    buffer.length = (fullSlots slotMapping chunks).length → c.Shaped chunks objs →
    (∀ layer ∈ objs, ∀ obj ∈ layer, obj.fmt = if c.useMla then .kvMla else .kvT2d) →
    ∃ paged, c.batchedToGpu kv slotMapping chunks buffer objs = .ok (paged, 0) ∧
      (∀ l layer, objs[l]? = some layer → ∀ p ∈ chunks.zip layer,
        ∀ cell ∈ (slice slotMapping p.1.1 p.1.2).zip p.2.rows, paged l cell.1 = cell.2) ∧
      ∀ l slot, (c.numLayers ≤ l ∨ slot ∉ fullSlots slotMapping chunks) → paged l slot = kv l slot

structure Moves (V : Type) (c : LayerwiseConnector) (slotMapping : List ℕ) (chunks : List (ℕ × ℕ)) :
    Prop where
  fromGpu : StoresAll V c slotMapping chunks
  toGpu : Contiguous chunks → LoadsAll V c slotMapping chunks

def NoGaps (chunks : List (ℕ × ℕ)) : Prop :=
  ∀ before chunk after, chunks = before ++ chunk :: after → chunk.1 < chunk.2 →
    chunk.1 - chunks.head?.elim 0 Prod.fst = (before.map fun ch => ch.2 - ch.1).sum

structure Ready (c : LayerwiseConnector) (chunks : List (ℕ × ℕ)) : Prop where
  nonempty : chunks ≠ []
  staging : c.useGpu = true → c.useMla = false ∧ c.bufferGranted = true
  staged : 0 < c.numLayers → c.useGpu = true ∧ NoGaps chunks

section Slots

variable {slotMapping : List ℕ} {chunks : List (ℕ × ℕ)} {chunk : ℕ × ℕ}

theorem Increasing.tail (h : Increasing slotMapping (chunk :: chunks)) :
    Increasing slotMapping chunks :=
  ⟨fun ch hch => h.inside ch (mem_cons_of_mem _ hch), (pairwise_cons.mp h.apart).2⟩

theorem Increasing.length_slice (h : Increasing slotMapping chunks) (hch : chunk ∈ chunks) :
    (slice slotMapping chunk.1 chunk.2).length = chunk.2 - chunk.1 :=
  Slice.length_slice _ (h.inside chunk hch).2

theorem fullSlots_cons (slotMapping : List ℕ) (chunk : ℕ × ℕ) (chunks : List (ℕ × ℕ)) :
    fullSlots slotMapping (chunk :: chunks) =
      slice slotMapping chunk.1 chunk.2 ++ fullSlots slotMapping chunks := flatMap_cons

theorem fullSlots_split (slotMapping : List ℕ) (before : List (ℕ × ℕ)) (chunk : ℕ × ℕ)
    (after : List (ℕ × ℕ)) : fullSlots slotMapping (before ++ chunk :: after) =
      fullSlots slotMapping before ++ (slice slotMapping chunk.1 chunk.2 ++
        fullSlots slotMapping after) := by
  rw [fullSlots, flatMap_append, flatMap_cons]
  rfl

theorem Increasing.length_fullSlots (h : Increasing slotMapping chunks) :
    (fullSlots slotMapping chunks).length = (chunks.map fun ch => ch.2 - ch.1).sum := by
  rw [fullSlots, length_flatMap]
  exact congrArg sum (map_congr_left fun ch hch => h.length_slice hch)

theorem Increasing.fullSlots_sublist (h : Increasing slotMapping chunks) {n : ℕ}
    (hn : ∀ ch ∈ chunks, n ≤ ch.1) : (fullSlots slotMapping chunks).Sublist (slotMapping.drop n) := by
  induction chunks generalizing n with
  | nil => exact nil_sublist _
  | cons chunk chunks ih =>
    have hapart := pairwise_cons.mp h.apart
    have hrest := ih h.tail hapart.1
    have hsplit : slotMapping.drop n = slice slotMapping n chunk.2 ++ slotMapping.drop chunk.2 := by
      have hle : n ≤ (slotMapping.take chunk.2).length := by
        have := hn chunk mem_cons_self
        have := h.inside chunk mem_cons_self
        rw [length_take]
        omega
      rw [slice, ← drop_append_of_le_length hle, take_append_drop]
    rw [fullSlots_cons, hsplit]
    refine List.Sublist.append ?_ hrest
    rw [slice, slice, ← Nat.add_sub_cancel' (hn chunk mem_cons_self), ← drop_drop]
    exact drop_sublist _ _

theorem Increasing.nodup (h : Increasing slotMapping chunks) (hnodup : slotMapping.Nodup) :
    (fullSlots slotMapping chunks).Nodup :=
  hnodup.sublist (h.fullSlots_sublist fun _ _ => zero_le _)

theorem Increasing.append_right {before : List (ℕ × ℕ)}
    (h : Increasing slotMapping (before ++ chunks)) : Increasing slotMapping before :=
  ⟨fun ch hch => h.inside ch (mem_append_left _ hch), (pairwise_append.mp h.apart).1⟩

theorem Increasing.slice_fullSlots (h : Increasing slotMapping chunks) (hgaps : NoGaps chunks)
    (hch : chunk ∈ chunks) :
    slice (fullSlots slotMapping chunks) (chunk.1 - chunks.head?.elim 0 Prod.fst)
      (chunk.2 - chunks.head?.elim 0 Prod.fst) = slice slotMapping chunk.1 chunk.2 := by
  have hlen := h.length_slice hch
  obtain ⟨before, after, rfl⟩ := append_of_mem hch
  generalize hoffset : (before ++ chunk :: after).head?.elim 0 Prod.fst = offset at *
  rcases lt_or_ge chunk.1 chunk.2 with hlt | hge
  · have hstart := hgaps before chunk after rfl hlt
    rw [hoffset, ← h.append_right.length_fullSlots] at hstart
    have hle : offset ≤ chunk.1 := by
      rcases before with _ | ⟨first, before⟩
      · rw [← hoffset]
        exact le_rfl
      · have := (pairwise_cons.mp h.apart).1 chunk (by simp)
        have := h.inside first (by simp)
        rw [← hoffset]
        simp only [cons_append, head?_cons, Option.elim_some]
        omega
    have hstop : chunk.2 - offset = (fullSlots slotMapping before).length +
        (slice slotMapping chunk.1 chunk.2).length := by omega
    rw [fullSlots_split, hstart, hstop, slice, ← length_append, ← append_assoc,
      take_left, drop_left]
  · rw [eq_nil_of_length_eq_zero (hlen.trans (Nat.sub_eq_zero_of_le hge)), slice]
    exact drop_eq_nil_of_le ((length_take_le _ _).trans (Nat.sub_le_sub_right hge offset))

end Slots

section FromGpu

variable {c : LayerwiseConnector} {slotMapping : List ℕ} {chunks : List (ℕ × ℕ)} {hasFormat : Bool}

theorem transferD2H_full {rows : List V} {slots : List ℕ} (h : rows.length = slots.length)
    (kv : ℕ → V) : transferD2H rows kv slots = .ok (slots.map kv) := by
  rw [transferD2H, if_neg (by omega), ← h, drop_length, append_nil]

variable {buffer : List V} {kv : ℕ → V} {offset : ℕ}

theorem fromChunks_staged (hasFormat : Bool) (hgpu : c.useGpu = true)
    (h : ∀ ch ∈ chunks, slice buffer (ch.1 - offset) (ch.2 - offset) =
      (slice slotMapping ch.1 ch.2).map kv ∧ (slice slotMapping ch.1 ch.2).length = ch.2 - ch.1)
    {objs : List (LayerObj V)}
    (hrows : objs.map (fun obj => obj.rows.length) = chunks.map fun ch => ch.2 - ch.1) :
    ∃ stored, c.fromChunks hasFormat kv buffer slotMapping offset chunks objs = .ok stored ∧
      stored.map LayerObj.rows = chunks.map fun ch => (slice slotMapping ch.1 ch.2).map kv := by
  induction chunks generalizing objs with
  | nil =>
    rw [map_nil, map_eq_nil_iff] at hrows
    exact ⟨[], by rw [hrows, fromChunks.eq_2 _ _ _ _ _ _ _ _ (by simp)], rfl⟩
  | cons ch chunks ih =>
    rcases objs with _ | ⟨obj, objs⟩
    · cases hrows
    · rw [map_cons, map_cons, cons_eq_cons] at hrows
      obtain ⟨stored, hstored, hmap⟩ := ih (fun ch hch => h ch (mem_cons_of_mem _ hch)) hrows.2
      obtain ⟨hslice, hlen⟩ := h ch mem_cons_self
      have hcopy : copyRows obj.rows (slice buffer (ch.1 - offset) (ch.2 - offset)) =
          .ok ((slice slotMapping ch.1 ch.2).map kv) := by
        rw [hslice, copyRows, if_pos (by rw [length_map, hlen, hrows.1])]
      refine ⟨⟨if c.useMla then .kvMla else obj.fmt, (slice slotMapping ch.1 ch.2).map kv⟩ :: stored,
        ?_, ?_⟩
      · rw [fromChunks, if_pos hgpu, hcopy]
        simp only [bind, Except.bind, hstored]
      · rw [map_cons, hmap, map_cons]

theorem fromLayers_staged (hasFormat : Bool) (hgpu : c.useGpu = true)
    (h : Increasing slotMapping chunks) (hgaps : NoGaps chunks) (kv : ℕ → ℕ → V) {layers : ℕ}
    (layerId : ℕ) {objs : List (List (LayerObj V))}
    (hbuffer : buffer.length = (fullSlots slotMapping chunks).length)
    (hlayers : objs.length = layers) (hrows : ∀ layer ∈ objs,
      layer.map (fun obj => obj.rows.length) = chunks.map fun ch => ch.2 - ch.1) :
    ∃ stored, c.fromLayers hasFormat kv buffer slotMapping chunks (fullSlots slotMapping chunks)
        (chunks.head?.elim 0 Prod.fst) layers layerId objs = .ok stored ∧
      stored.map (map LayerObj.rows) = (range' layerId layers).map fun l =>
        chunks.map fun ch => (slice slotMapping ch.1 ch.2).map (kv l) := by
  induction layers generalizing layerId buffer objs with
  | zero => exact ⟨objs, by rw [fromLayers], by rw [eq_nil_of_length_eq_zero hlayers]; rfl⟩
  | succ layers ih =>
    rcases objs with _ | ⟨layer, objs⟩
    · cases hlayers
    · have hfull := transferD2H_full hbuffer (kv layerId)
      have hslices : ∀ ch ∈ chunks,
          slice ((fullSlots slotMapping chunks).map (kv layerId))
              (ch.1 - chunks.head?.elim 0 Prod.fst) (ch.2 - chunks.head?.elim 0 Prod.fst) =
            (slice slotMapping ch.1 ch.2).map (kv layerId) ∧
          (slice slotMapping ch.1 ch.2).length = ch.2 - ch.1 := by
        intro ch hch
        refine ⟨?_, h.length_slice hch⟩
        rw [← h.slice_fullSlots hgaps hch, slice, slice, map_drop, map_take]
      obtain ⟨first, hfirst, hmap⟩ := fromChunks_staged hasFormat hgpu hslices
        (hrows layer mem_cons_self)
      obtain ⟨stored, hstored, hrest⟩ := ih (layerId + 1) (length_map (kv layerId))
        (succ.inj hlayers) fun layer hlayer => hrows layer (mem_cons_of_mem _ hlayer)
      refine ⟨first :: stored, ?_, ?_⟩
      · rw [fromLayers, if_pos hgpu, hfull]
        simp only [bind, Except.bind, hfirst, hstored]
      · rw [map_cons, hmap, hrest, range'_succ, map_cons]

theorem copyRows_head {dst src rows : List V} (h : copyRows dst src = .ok rows) {n : ℕ}
    (hdst : dst.length = n + 1) : rows[0]? = src[0]? ∧ ∃ v, src[0]? = some v := by
  rw [copyRows] at h
  split_ifs at h with hlen hone
  · rw [← ok.inj h]
    exact ⟨rfl, _, getElem?_eq_getElem (by omega)⟩
  · obtain ⟨v, rfl⟩ := length_eq_one_iff.mp hone
    obtain ⟨w, dst, rfl⟩ := exists_cons_of_length_eq_add_one hdst
    rw [← ok.inj h]
    exact ⟨rfl, v, rfl⟩

theorem copyRows_of_fromChunks (hgpu : c.useGpu = true) {chunk : ℕ × ℕ}
    {before after : List (ℕ × ℕ)} {objs stored : List (LayerObj V)}
    (h : c.fromChunks hasFormat kv buffer slotMapping offset (before ++ chunk :: after) objs =
      .ok stored) (obj : LayerObj V) (hobj : objs[before.length]? = some obj) :
    ∃ rows, copyRows obj.rows (slice buffer (chunk.1 - offset) (chunk.2 - offset)) = .ok rows ∧
      (stored.map LayerObj.rows)[before.length]? = some rows := by
  induction before generalizing objs stored with
  | nil =>
    rcases objs with _ | ⟨first, objs⟩
    · cases hobj
    · obtain rfl := Option.some.inj hobj
      rw [nil_append, fromChunks, if_pos hgpu] at h
      obtain ⟨rows, hrows, h⟩ := exists_of_bind_eq_ok h
      obtain ⟨rest, -, h⟩ := exists_of_bind_eq_ok h
      rw [← ok.inj h]
      exact ⟨rows, hrows, rfl⟩
  | cons ch before ih =>
    rcases objs with _ | ⟨first, objs⟩
    · cases hobj
    · rw [cons_append, fromChunks, if_pos hgpu] at h
      obtain ⟨rows, -, h⟩ := exists_of_bind_eq_ok h
      obtain ⟨rest, hrest, h⟩ := exists_of_bind_eq_ok h
      rw [← ok.inj h]
      exact ih hrest hobj

end FromGpu

section ToGpu

variable {c : LayerwiseConnector} {slotMapping : List ℕ} {chunks : List (ℕ × ℕ)} {hasFormat : Bool}
  {layer : List (LayerObj V)}

theorem toChunks_staged (hasFormat : Bool) (slots : List ℕ) (offset : ℕ) (hgpu : c.useGpu = true)
    (h : Increasing slotMapping chunks) (hcontiguous : Contiguous chunks)
    (hrows : layer.map (fun obj => obj.rows.length) = chunks.map fun ch => ch.2 - ch.1)
    (hfmt : ∀ obj ∈ layer, obj.fmt = if c.useMla then .kvMla else .kvT2d) (done : List V)
    {rest : List V} (hstart : ∀ ch ∈ chunks.head?, ch.1 = offset + done.length)
    (hrest : rest.length = (chunks.map fun ch => ch.2 - ch.1).sum) (kv : ℕ → V) :
    c.toChunks hasFormat slots offset chunks layer (done ++ rest) kv =
      .ok (done ++ layer.flatMap LayerObj.rows, kv) := by
  induction chunks generalizing layer done rest with
  | nil =>
    rw [map_nil, map_eq_nil_iff] at hrows
    rw [eq_nil_of_length_eq_zero hrest, hrows, toChunks.eq_2 _ _ _ _ _ _ _ _ (by simp)]
    rfl
  | cons ch chunks ih =>
    rcases layer with _ | ⟨obj, layer⟩
    · cases hrows
    · rw [map_cons, map_cons, cons_eq_cons] at hrows
      rw [map_cons, sum_cons] at hrest
      have hfirst : ch.1 = offset + done.length := hstart ch rfl
      have hinside := (h.inside ch mem_cons_self).1
      have hlow : ch.1 - offset = done.length := by omega
      have hhigh : ch.2 - offset = done.length + (ch.2 - ch.1) := by omega
      have hslice : slice (done ++ rest) (ch.1 - offset) (ch.2 - offset) = rest.take (ch.2 - ch.1) := by
        rw [slice, hlow, hhigh, take_length_add_append, drop_left]
      have hcopy : copyRows (rest.take (ch.2 - ch.1)) obj.rows = .ok obj.rows := by
        rw [copyRows, if_pos]
        rw [length_take, hrows.1]
        omega
      have hbuffer : (done ++ rest).take (ch.1 - offset) ++ obj.rows ++
          (done ++ rest).drop (ch.2 - offset) = done ++ obj.rows ++ rest.drop (ch.2 - ch.1) := by
        rw [hlow, hhigh, take_left, drop_length_add_append]
      rw [toChunks, if_neg (not_not.mpr (hfmt obj mem_cons_self)), if_pos hgpu, hslice, hcopy]
      simp only [bind, Except.bind]
      rw [hbuffer, ih h.tail (isChain_of_isChain_cons hcontiguous) hrows.2
          (fun obj hobj => hfmt obj (mem_cons_of_mem _ hobj)) (done ++ obj.rows) ?_ ?_,
        flatMap_cons, append_assoc]
      · rintro next hnext
        have hmeet : ch.2 = next.1 := by
          rcases chunks with _ | ⟨second, chunks⟩
          · cases hnext
          · obtain rfl := Option.some.inj hnext
            exact (isChain_cons_cons.mp hcontiguous).1
        rw [length_append, hrows.1]
        omega
      · rw [length_drop]
        omega

theorem length_layer (h : Increasing slotMapping chunks)
    (hrows : layer.map (fun obj => obj.rows.length) = chunks.map fun ch => ch.2 - ch.1) :
    (layer.flatMap LayerObj.rows).length = (fullSlots slotMapping chunks).length := by
  rw [h.length_fullSlots, ← hrows, length_flatMap]

theorem toLayers_staged (hasFormat : Bool) (hgpu : c.useGpu = true)
    (h : Increasing slotMapping chunks) (hcontiguous : Contiguous chunks) {layers : ℕ} (layerId : ℕ)
    {buffer : List V}
    {objs : List (List (LayerObj V))}
    (hbuffer : buffer.length = (fullSlots slotMapping chunks).length) (hlayers : objs.length = layers)
    (hrows : ∀ layer ∈ objs,
      layer.map (fun obj => obj.rows.length) = chunks.map fun ch => ch.2 - ch.1)
    (hfmt : ∀ layer ∈ objs, ∀ obj ∈ layer, obj.fmt = if c.useMla then .kvMla else .kvT2d)
    (kv : ℕ → ℕ → V) :
    ∃ paged, c.toLayers hasFormat chunks (fullSlots slotMapping chunks)
        (chunks.head?.elim 0 Prod.fst) layers layerId objs buffer kv = .ok paged ∧
      (∀ l layer, objs[l]? = some layer → paged (layerId + l) = Cells.write (kv (layerId + l))
        ((fullSlots slotMapping chunks).zip (layer.flatMap LayerObj.rows))) ∧
      ∀ l, (l < layerId ∨ layerId + layers ≤ l) → paged l = kv l := by
  induction layers generalizing layerId buffer objs kv with
  | zero =>
    refine ⟨kv, by rw [toLayers], ?_, fun _ _ => rfl⟩
    rw [eq_nil_of_length_eq_zero hlayers]
    intro l layer hlayer
    cases hlayer
  | succ layers ih =>
    rcases objs with _ | ⟨layer, objs⟩
    · cases hlayers
    · have hfirst := hrows layer mem_cons_self
      have hchunks := toChunks_staged hasFormat (fullSlots slotMapping chunks)
        (chunks.head?.elim 0 Prod.fst) hgpu h hcontiguous hfirst (hfmt layer mem_cons_self) []
        (fun ch hch => by rw [hch]; rfl) (hbuffer.trans h.length_fullSlots) (kv layerId)
      have hlen := length_layer h hfirst
      obtain ⟨paged, hpaged, hwritten, hkept⟩ := ih (layerId + 1) hlen (succ.inj hlayers)
        (fun layer hlayer => hrows layer (mem_cons_of_mem _ hlayer))
        (fun layer hlayer => hfmt layer (mem_cons_of_mem _ hlayer))
        (update kv layerId (Cells.write (kv layerId)
          ((fullSlots slotMapping chunks).zip (layer.flatMap LayerObj.rows))))
      refine ⟨paged, ?_, ?_, ?_⟩
      · rw [nil_append, nil_append] at hchunks
        rw [toLayers, hchunks]
        simp only [bind, Except.bind, hgpu, if_true, transferH2D, hlen, lt_irrefl,
          if_false, hpaged]
      · intro l next hnext
        rcases l with _ | l
        · obtain rfl := Option.some.inj hnext
          rw [add_zero, hkept layerId (.inl (lt_succ_self _)), update_self]
        · rw [← add_assoc, add_right_comm, hwritten l next hnext, update_of_ne (by omega)]
      · intro l hl
        rw [hkept l (by omega), update_of_ne (by omega)]

theorem zip_fullSlots (h : Increasing slotMapping chunks)
    (hrows : layer.map (fun obj => obj.rows.length) = chunks.map fun ch => ch.2 - ch.1) :
    (fullSlots slotMapping chunks).zip (layer.flatMap LayerObj.rows) =
      (chunks.zip layer).flatMap fun p => (slice slotMapping p.1.1 p.1.2).zip p.2.rows := by
  induction chunks generalizing layer with
  | nil =>
    rw [zip_nil_left]
    rfl
  | cons ch chunks ih =>
    rcases layer with _ | ⟨obj, layer⟩
    · cases hrows
    · rw [map_cons, map_cons, cons_eq_cons] at hrows
      have hlen : (slice slotMapping ch.1 ch.2).length = obj.rows.length :=
        (h.length_slice mem_cons_self).trans hrows.1.symm
      rw [fullSlots_cons, flatMap_cons, zip_append hlen, ih h.tail hrows.2,
        zip_cons_cons, flatMap_cons]

end ToGpu

section Moves

variable {c : LayerwiseConnector} {slotMapping : List ℕ} {chunks : List (ℕ × ℕ)}

theorem Ready.storesAll (hready : Ready c chunks) (h : Increasing slotMapping chunks) :
    StoresAll V c slotMapping chunks := by
  intro kv buffer objs hbuffer hshaped
  simp only [LayerwiseConnector.batchedFromGpu, catSlots, if_neg hready.nonempty,
    lazyInitializeBuffer, allocateBuffer]
  rcases Nat.eq_zero_or_pos c.numLayers with hzero | hpos
  · have hnil := eq_nil_of_length_eq_zero (hshaped.layers.trans hzero)
    refine ⟨[], ?_, by rw [hzero]; rfl⟩
    cases hgpu : c.useGpu with
    | true =>
      simp only [hready.staging hgpu, if_true, Bool.false_eq_true, if_false, hzero, hnil, bind,
        Except.bind, fromLayers]
    | false =>
      simp only [Bool.false_eq_true, if_false, hzero, hnil, bind, Except.bind, fromLayers]
  · obtain ⟨hgpu, hgaps⟩ := hready.staged hpos
    obtain ⟨stored, hstored, hmap⟩ := fromLayers_staged true hgpu h hgaps kv 0
      hbuffer hshaped.layers hshaped.rows
    rw [range_eq_range']
    refine ⟨stored, ?_, hmap⟩
    simp only [hgpu, hready.staging hgpu, if_true, Bool.false_eq_true, if_false, bind, Except.bind,
      hstored]

theorem Ready.loadsAll (hready : Ready c chunks) (h : Increasing slotMapping chunks)
    (hnodup : slotMapping.Nodup) (hcontiguous : Contiguous chunks) :
    LoadsAll V c slotMapping chunks := by
  intro kv buffer objs hbuffer hshaped hfmt
  simp only [LayerwiseConnector.batchedToGpu, catSlots, if_neg hready.nonempty,
    lazyInitializeBuffer, allocateBuffer]
  rcases Nat.eq_zero_or_pos c.numLayers with hzero | hpos
  · have hnil := eq_nil_of_length_eq_zero (hshaped.layers.trans hzero)
    refine ⟨kv, ?_, fun l layer hlayer => ?_, fun _ _ _ => rfl⟩
    · cases hgpu : c.useGpu with
      | true =>
        simp only [hready.staging hgpu, if_true, Bool.false_eq_true, if_false, hzero, bind,
          Except.bind, toLayers]
      | false => simp only [Bool.false_eq_true, if_false, hzero, bind, Except.bind, toLayers]
    · rw [hnil] at hlayer
      cases hlayer
  · obtain ⟨hgpu, -⟩ := hready.staged hpos
    obtain ⟨paged, hpaged, hwritten, hkept⟩ := toLayers_staged true hgpu h hcontiguous 0 hbuffer hshaped.layers hshaped.rows hfmt kv
    have hlayers : ∀ l layer, objs[l]? = some layer → paged l = Cells.write (kv l)
        ((fullSlots slotMapping chunks).zip (layer.flatMap LayerObj.rows)) := fun l layer hlayer => by
      simpa only [zero_add] using hwritten l layer hlayer
    refine ⟨paged, ?_, fun l layer hlayer p hp cell hcell => ?_, fun l slot hfree => ?_⟩
    · simp only [hgpu, hready.staging hgpu, if_true, Bool.false_eq_true, if_false, bind, Except.bind,
        hpaged]
    · have hrows := hshaped.rows layer (mem_of_getElem? hlayer)
      have hslots := map_fst_zip (length_layer h hrows).ge
      rw [hlayers l layer hlayer]
      refine Cells.write_of_mem (by rw [hslots]; exact h.nodup hnodup) ?_
      rw [zip_fullSlots h hrows]
      exact mem_flatMap.mpr ⟨p, hp, hcell⟩
    · rcases lt_or_ge l c.numLayers with hlt | hge
      · rw [← hshaped.layers] at hlt
        have hlayer := getElem?_eq_getElem hlt
        have hslots := map_fst_zip
          (length_layer h (hshaped.rows _ (mem_of_getElem? hlayer))).ge
        rw [hlayers l _ hlayer]
        refine Cells.write_of_notMem ?_
        rw [hslots]
        exact hfree.resolve_left (by have := hshaped.layers; omega)
      · rw [hkept l (.inr (by omega))]

def blankObjs (c : LayerwiseConnector) (chunks : List (ℕ × ℕ)) (v : V) : List (List (LayerObj V)) :=
  replicate c.numLayers (chunks.map fun ch => ⟨.kvT2d, replicate (ch.2 - ch.1) v⟩)

theorem shaped_blankObjs (chunks : List (ℕ × ℕ)) (v : V) :
    c.Shaped chunks (c.blankObjs chunks v) := by
  refine ⟨length_replicate, fun layer hlayer => ?_⟩
  rw [eq_of_mem_replicate hlayer, map_map]
  exact map_congr_left fun ch _ => length_replicate

theorem Moves.exists_fromLayers (hmoves : Moves V c slotMapping chunks) (kv : ℕ → ℕ → V) (v : V) :
    chunks ≠ [] ∧ (c.useGpu = true → c.useMla = false ∧ c.bufferGranted = true) ∧
      ∃ stored, c.fromLayers c.useGpu kv (replicate (fullSlots slotMapping chunks).length v)
          slotMapping chunks (fullSlots slotMapping chunks) (chunks.head?.elim 0 Prod.fst)
          c.numLayers 0 (c.blankObjs chunks v) = .ok stored ∧
        stored.map (map LayerObj.rows) = (range c.numLayers).map fun l =>
          chunks.map fun ch => (slice slotMapping ch.1 ch.2).map (kv l) := by
  obtain ⟨stored, hrun, hmap⟩ := hmoves.fromGpu kv
    (replicate (fullSlots slotMapping chunks).length v) (c.blankObjs chunks v)
    length_replicate (c.shaped_blankObjs chunks v)
  rw [LayerwiseConnector.batchedFromGpu] at hrun
  obtain ⟨hasFormat, hformat, hrun⟩ := exists_of_bind_eq_ok hrun
  obtain ⟨slots, hslots, hrun⟩ := exists_of_bind_eq_ok hrun
  obtain ⟨refs, hrefs, hrun⟩ := exists_of_bind_eq_ok hrun
  obtain ⟨objs, hobjs, hrun⟩ := exists_of_bind_eq_ok hrun
  obtain ⟨rfl, -⟩ := Prod.mk.inj (ok.inj hrun)
  rw [catSlots] at hslots
  split_ifs at hslots with hempty
  obtain rfl := ok.inj hslots
  have hgpu : hasFormat = c.useGpu ∧
      (c.useGpu = true → c.useMla = false ∧ c.bufferGranted = true) := by
    rw [lazyInitializeBuffer] at hformat
    rw [allocateBuffer] at hrefs
    split_ifs at hformat hrefs with huse hmla hgranted
    · exact ⟨(ok.inj hformat).symm.trans huse.symm, fun _ => ⟨Bool.not_eq_true _ ▸ hmla, hgranted⟩⟩
    · exact ⟨(ok.inj hformat).symm.trans (Bool.not_eq_true _ ▸ huse).symm,
        fun hyes => absurd hyes huse⟩
  rw [hgpu.1] at hobjs
  exact ⟨hempty, hgpu.2, objs, hobjs, hmap⟩

theorem Moves.exists_fromChunks (hmoves : Moves V c slotMapping chunks) (hpos : 0 < c.numLayers)
    (kv : ℕ → V) (v : V) :
    ∃ buffer stored, (c.useGpu = true → buffer = (fullSlots slotMapping chunks).map kv) ∧
      c.fromChunks c.useGpu kv buffer slotMapping (chunks.head?.elim 0 Prod.fst) chunks
        (chunks.map fun ch => ⟨.kvT2d, replicate (ch.2 - ch.1) v⟩) = .ok stored ∧
      stored.map LayerObj.rows = chunks.map fun ch => (slice slotMapping ch.1 ch.2).map kv := by
  obtain ⟨-, -, stored, hrun, hmap⟩ := hmoves.exists_fromLayers (fun _ => kv) v
  obtain ⟨layers, hlayers⟩ := Nat.exists_eq_add_of_lt hpos
  rw [zero_add] at hlayers
  rw [blankObjs, hlayers, List.replicate_succ, fromLayers] at hrun
  obtain ⟨buffer, hbuffer, hrun⟩ := exists_of_bind_eq_ok hrun
  obtain ⟨layer, hlayer, hrun⟩ := exists_of_bind_eq_ok hrun
  obtain ⟨rest, -, hrun⟩ := exists_of_bind_eq_ok hrun
  rw [← ok.inj hrun, hlayers, List.range_succ_eq_map, List.map_cons, List.map_cons] at hmap
  refine ⟨buffer, layer, fun hgpu => ?_, hlayer, (List.cons.inj hmap).1⟩
  rw [if_pos hgpu, transferD2H_full List.length_replicate] at hbuffer
  exact (ok.inj hbuffer).symm

theorem Moves.noGaps [Nontrivial V] (hmoves : Moves V c slotMapping chunks) (hpos : 0 < c.numLayers)
    (hgpu : c.useGpu = true) (h : Increasing slotMapping chunks) (hnodup : slotMapping.Nodup) :
    NoGaps chunks := by
  rintro before chunk after rfl hlt
  obtain ⟨v, w, hvw⟩ := exists_pair_ne V
  have hinside := h.inside chunk (List.mem_append_right _ List.mem_cons_self)
  have hslot := List.getElem?_eq_getElem (l := slotMapping) (i := chunk.1) (by omega)
  generalize slotMapping[chunk.1] = slot at hslot
  obtain ⟨buffer, stored, hbuffer, hrun, hmap⟩ :=
    hmoves.exists_fromChunks hpos (fun s => if s = slot then v else w) v
  generalize (before ++ chunk :: after).head?.elim 0 Prod.fst = offset at hrun ⊢
  obtain ⟨rows, hcopy, hrows⟩ := copyRows_of_fromChunks hgpu hrun
    ⟨.kvT2d, replicate (chunk.2 - chunk.1) v⟩
    (by simp only [map_append, map_cons, getElem?_append_right, length_map,
      le_refl, Nat.sub_self, getElem?_cons_zero])
  obtain ⟨hhead, x, hx⟩ := copyRows_head hcopy (n := chunk.2 - chunk.1 - 1)
    (length_replicate.trans (by omega))
  have hfirst : rows[0]? = some v := by
    rw [hmap, getElem?_map, getElem?_append_right le_rfl, Nat.sub_self, getElem?_cons_zero] at hrows
    rw [← Option.some.inj hrows, getElem?_map, getElem?_slice, add_zero, if_pos hlt, hslot,
      Option.map_some, if_pos rfl]
  have hread : (fullSlots slotMapping (before ++ chunk :: after))[chunk.1 - offset]? = some slot := by
    rw [hhead, getElem?_slice, add_zero, hbuffer hgpu, getElem?_map] at hfirst
    split_ifs at hfirst
    obtain ⟨found, hfound, hvalue⟩ := Option.map_eq_some_iff.mp hfirst
    split_ifs at hvalue with hsame
    · rw [hfound, hsame]
    · exact absurd hvalue.symm hvw
  have hplace : (fullSlots slotMapping (before ++ chunk :: after))[(fullSlots slotMapping
      before).length]? = some slot := by
    rw [fullSlots_split, getElem?_append_right le_rfl, Nat.sub_self, getElem?_append_left
      (by rw [h.length_slice (by simp)]; omega), getElem?_slice, add_zero, if_pos hlt, hslot]
  have hlt := (List.getElem?_eq_some_iff.mp hread).1
  rw [← h.append_right.length_fullSlots]
  exact (getElem?_inj hlt (h.nodup hnodup)).mp (hread.trans hplace.symm)

theorem Moves.ready [Nontrivial V] (hmoves : Moves V c slotMapping chunks)
    (h : Increasing slotMapping chunks) (hnodup : slotMapping.Nodup) : Ready c chunks := by
  obtain ⟨v, -, -⟩ := exists_pair_ne V
  obtain ⟨hnonempty, hstaging, -⟩ := hmoves.exists_fromLayers (fun _ _ => v) v
  refine ⟨hnonempty, hstaging, fun hpos => ?_⟩
  cases hgpu : c.useGpu with
  | true => exact ⟨rfl, hmoves.noGaps hpos hgpu h hnodup⟩
  | false =>
    obtain ⟨ch, chunks, rfl⟩ := exists_cons_of_ne_nil hnonempty
    obtain ⟨buffer, stored, -, hrun, -⟩ := hmoves.exists_fromChunks hpos (fun _ => v) v
    rw [map_cons, fromChunks, hgpu] at hrun
    cases hrun

theorem moves_iff_ready [Nontrivial V] (c : LayerwiseConnector) (hnodup : slotMapping.Nodup)
    (h : Increasing slotMapping chunks) : Moves V c slotMapping chunks ↔ Ready c chunks := by
  constructor
  · intro hmoves
    exact hmoves.ready h hnodup
  · intro hready
    exact ⟨hready.storesAll h, hready.loadsAll h hnodup⟩

def staged : LayerwiseConnector := ⟨2, true, false, true⟩

theorem moves_iff_ready_joined :
    Moves Bool staged [7, 3, 5] [(0, 2), (2, 3)] ↔ Ready staged [(0, 2), (2, 3)] :=
  moves_iff_ready staged (by decide) ⟨by decide, by decide⟩

theorem not_moves_gap : ¬ Moves ℕ staged [7, 3, 5, 4] [(0, 1), (3, 4)] := by
  intro hmoves
  obtain ⟨stored, hrun, hmap⟩ := hmoves.fromGpu (fun _ slot => slot) [0, 0]
    [[⟨.kvT2d, [0]⟩, ⟨.kvT2d, [0]⟩], [⟨.kvT2d, [0]⟩, ⟨.kvT2d, [0]⟩]] rfl ⟨rfl, by decide⟩
  have hfails : staged.batchedFromGpu (fun _ slot => slot) [7, 3, 5, 4] [(0, 1), (3, 4)] [0, 0]
      [[⟨.kvT2d, [0]⟩, ⟨.kvT2d, [0]⟩], [⟨.kvT2d, [0]⟩, ⟨.kvT2d, [0]⟩]] = .error .runtimeError := rfl
  rw [hfails] at hrun
  cases hrun

end Moves

end LayerwiseConnector

end LMCache
