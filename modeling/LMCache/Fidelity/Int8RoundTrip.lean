import LMCache.Fidelity.Int8Codec

namespace LMCache.Fidelity

open Utils Broadcast Quantization PageLayout List Tensor CodecObj Nat Offsets

structure Scalable (tensor : Tensor) : Prop where
  floating : tensor.dtype.isFloatingPoint = true
  rows : tensor.shape.getLast? ≠ some 0

namespace Int8BaseCodec

variable {V : Type} (codec : Int8BaseCodec)

def encodedShapes (obj : CodecObj V) : List (List ℕ) :=
  obj.shapes.flatMap fun shape => [shape, keepLast shape]

def encodedDtypes (obj : CodecObj V) : List TorchDtype :=
  obj.dtypes.flatMap fun _ => [.int8, codec.scaleDtype]

structure Codable (encodeAllocator decodeAllocator : CodecAllocator) (obj : CodecObj V) : Prop where
  valid : obj.valid = true
  fits : Fits obj.rawData obj.shapes obj.dtypes
  scalable : ∀ tensor ∈ obj.tensors, Scalable tensor
  encoded : ∃ block, encodeAllocator.allocate (encodedShapes obj) (codec.encodedDtypes obj)
    obj.fmt = some block ∧ Fits block.rawData (encodedShapes obj) (codec.encodedDtypes obj)
  decoded : ∃ block, decodeAllocator.allocate obj.shapes obj.dtypes obj.fmt = some block ∧
    Fits block.rawData obj.shapes obj.dtypes

structure RestoredAt (tensor quantized restored : Tensor) (scale : ℚ) (index : List ℕ) : Prop where
  own : restored.value index = quantized.value index * scale
  step : ∃ m, m ∈ (tensor.row index).map abs ∧ (∀ x ∈ tensor.row index, |x| ≤ m) ∧
    scale = max (m / 127) codec.minScale
  level : ∃ n : ℤ, quantized.value index = n ∧ -127 ≤ n ∧ n ≤ 127
  near : |tensor.value index - restored.value index| ≤ scale / 2

structure RoundTrip (obj encoded decoded : CodecObj V) : Prop where
  shapes : decoded.shapes = obj.shapes
  dtypes : decoded.dtypes = obj.dtypes
  restored : ∀ i tensor, obj.tensors[i]? = some tensor → ∃ quantized scale restored,
    encoded.tensors[2 * i]? = some quantized ∧ encoded.tensors[2 * i + 1]? = some scale ∧
      decoded.tensors[i]? = some restored ∧ ∀ index, Within index tensor.shape →
        codec.RestoredAt tensor quantized restored (scale.value (source scale.shape index)) index

def CodecLaw (encodeAllocator decodeAllocator : CodecAllocator) (obj : CodecObj V) : Prop :=
  (isEncodedMemoryObj obj = true → codec.encode encodeAllocator obj = .ok obj) ∧
    (isEncodedMemoryObj obj = false → decode decodeAllocator obj = .ok obj ∧
      ∃ encoded decoded, codec.encode encodeAllocator obj = .ok encoded ∧
        codec.encode encodeAllocator encoded = .ok encoded ∧
          decode decodeAllocator encoded = .ok decoded ∧ codec.RoundTrip obj encoded decoded)

end Int8BaseCodec

namespace Int8BaseCodec

variable {V : Type} {codec : Int8BaseCodec} {obj : CodecObj V} {tensor : Tensor}
variable (codec) in
def storedScale (tensor : Tensor) : Tensor where
  shape := keepLast tensor.shape
  dtype := codec.scaleDtype
  value := fun index =>
    max (((tensor.map abs).row index).max?.getD 0 / 127) codec.minScale

variable (codec) in
def quantized (tensor : Tensor) : Tensor where
  shape := tensor.shape
  dtype := .int8
  value := fun index => clamp (-128) 127 (roundHalfEven (tensor.value (source tensor.shape index) /
    (codec.storedScale tensor).value (source (keepLast tensor.shape) index)))

theorem encodeBaseTensor_ok (h : Scalable tensor) :
    codec.encodeBaseTensor tensor = .ok (codec.quantized tensor, codec.storedScale tensor) := by
  have hscale : ((tensor.toDtype .float32).map abs).amax = .ok
      ⟨keepLast tensor.shape, .float32, fun index => ((tensor.map abs).row index).max?.getD 0⟩ :=
    if_neg h.rows
  have hratio : ∀ value, (tensor.toDtype .float32).zipWith (· / ·)
      ⟨keepLast tensor.shape, .float32, value⟩ = .ok ⟨tensor.shape, .float32, fun index =>
        tensor.value (source tensor.shape index) /
          value (source (keepLast tensor.shape) index)⟩ := by
    intro value
    simp only [Tensor.zipWith, Tensor.toDtype, common_keepLast]
  rw [encodeBaseTensor, h.floating, rowScale, hscale]
  simp only [bind, Except.bind, pure, Except.pure, Bool.not_true, Bool.false_eq_true, if_false,
    Tensor.map, hratio]
  rfl

theorem encodeBaseTensor_eq_ok_iff {pair : Tensor × Tensor} :
    codec.encodeBaseTensor tensor = .ok pair ↔
      Scalable tensor ∧ pair = (codec.quantized tensor, codec.storedScale tensor) := by
  constructor
  · intro h
    have hscalable : Scalable tensor := by
      constructor
      · by_contra hfloating
        rw [encodeBaseTensor, (Bool.not_eq_true _).mp hfloating] at h
        cases h
      · intro hrows
        have hempty : ((tensor.toDtype .float32).map abs).amax = .error .emptyRows := if_pos hrows
        rw [encodeBaseTensor, rowScale, hempty] at h
        split_ifs at h
        cases h
    exact ⟨hscalable, Except.ok.inj (h.symm.trans (encodeBaseTensor_ok hscalable))⟩
  · rintro ⟨hscalable, rfl⟩
    exact encodeBaseTensor_ok hscalable

theorem encodeGroups_eq_ok_iff {tensors encoded : List Tensor} {k : ℕ}
    (hat : ∀ i t, tensors[i]? = some t → obj.tensors[k + i]? = some t) :
    codec.encodeGroups obj (range' k tensors.length) = .ok encoded ↔
      (∀ i t, tensors[i]? = some t → obj.getTensor (k + i) = .ok (some t) ∧ Scalable t) ∧
        encoded = tensors.flatMap fun t => [codec.quantized t, codec.storedScale t] := by
  induction tensors generalizing k encoded with
  | nil => simp [encodeGroups, eq_comm]
  | cons t tensors ih =>
    have hnext : ∀ i t', tensors[i]? = some t' → obj.tensors[k + 1 + i]? = some t' := by
      intro i t' ht'
      rw [add_right_comm]
      exact hat (i + 1) t' ht'
    rw [length_cons, range'_succ, encodeGroups]
    constructor
    · intro h
      simp only [bind_eq_ok_iff, required_eq_ok_iff, encodeBaseTensor_eq_ok_iff, ih hnext] at h
      obtain ⟨_, hget, t', rfl, _, ⟨hscalable, rfl⟩, _, ⟨hrest, rfl⟩, heq⟩ := h
      obtain rfl := Except.ok.inj heq
      obtain rfl : t = t' :=
        Option.some.inj ((hat 0 t rfl).symm.trans (getTensor_iff.mp hget).2.1)
      refine ⟨fun i t' ht' => ?_, rfl⟩
      cases i with
      | zero =>
        obtain rfl := Option.some.inj ht'
        exact ⟨hget, hscalable⟩
      | succ i =>
        rw [← add_assoc, add_right_comm]
        exact hrest i t' ht'
    · rintro ⟨hall, rfl⟩
      obtain ⟨hget, hscalable⟩ := hall 0 t rfl
      have hrest := (ih hnext).mpr ⟨fun i t' ht' => by
        rw [add_right_comm]
        exact hall (i + 1) t' ht', rfl⟩
      rw [add_zero] at hget
      rw [hget, hrest]
      simp only [bind, Except.bind, required, encodeBaseTensor_ok hscalable]
      rfl

variable (codec) in
def encodedTensors (obj : CodecObj V) : List Tensor :=
  obj.tensors.flatMap fun t => [codec.quantized t, codec.storedScale t]

variable (codec) in
theorem shapes_encodedTensors (obj : CodecObj V) :
    (codec.encodedTensors obj).map shape = encodedShapes obj := by
  rw [encodedTensors, map_flatMap, encodedShapes, shapes, flatMap_map]
  rfl

variable (codec) in
theorem dtypes_encodedTensors (obj : CodecObj V) :
    (codec.encodedTensors obj).map dtype = codec.encodedDtypes obj := by
  rw [encodedTensors, map_flatMap, encodedDtypes, dtypes, flatMap_map]
  rfl

structure Encoded (codec : Int8BaseCodec) (obj encoded : CodecObj V) : Prop where
  tensors : encoded.tensors = (codec.encodedTensors obj).map copied
  views : ∀ i t, encoded.tensors[i]? = some t → encoded.getTensor i = .ok (some t)
  extra : encoded.extra = some (encodedExtra obj)
  fmt : encoded.fmt = obj.fmt

variable {i : ℕ}

theorem fillSlot_ok {encoded : CodecObj V} {src dst : Tensor}
    (hget : encoded.getTensor i = .ok (some dst)) (hshape : dst.shape = src.shape)
    (hdtype : dst.dtype = src.dtype) :
    fillSlot encoded (src, i) = .ok (encoded.set i src.copied) := by
  rw [fillSlot, hget]
  simp only [bind, Except.bind, required, copy_eq hshape hdtype]
  rfl

theorem fillSlot_inv {encoded filled : CodecObj V} {slot : Tensor × ℕ}
    (h : fillSlot encoded slot = .ok filled) : ∃ dst t, encoded.getTensor slot.2 = .ok (some dst) ∧
      t.shape = dst.shape ∧ t.dtype = dst.dtype ∧ filled = encoded.set slot.2 t := by
  simp only [fillSlot, bind_eq_ok_iff, required_eq_ok_iff] at h
  obtain ⟨_, hget, dst, rfl, t, hcopy, heq⟩ := h
  obtain ⟨hshape, hdtype⟩ := shape_dtype_of_copy hcopy
  exact ⟨dst, t, hget, hshape, hdtype, (Except.ok.inj heq).symm⟩

theorem fillSlot_alike (before : CodecObj V) (slot : Tensor × ℕ) (filled : CodecObj V)
    (h : Alike before obj) (hfill : fillSlot before slot = .ok filled) : Alike filled obj := by
  obtain ⟨dst, t, hget, hshape, hdtype, rfl⟩ := fillSlot_inv hfill
  exact h.set_got hget hshape hdtype

variable {allocator : CodecAllocator}

theorem encode_ok {block : CodecBlock} (hplain : isEncodedMemoryObj obj = false)
    (hvalid : obj.valid = true) (hfits : Fits obj.rawData obj.shapes obj.dtypes)
    (hscalable : ∀ tensor ∈ obj.tensors, Scalable tensor)
    (hblock : allocator.allocate (encodedShapes obj) (codec.encodedDtypes obj) obj.fmt =
      some block) (hblockFits : Fits block.rawData (encodedShapes obj) (codec.encodedDtypes obj)) :
    ∃ encoded, codec.encode allocator obj = .ok encoded ∧ codec.Encoded obj encoded := by
  have hgroups : codec.encodeGroups obj (range obj.shapes.length) =
      .ok (codec.encodedTensors obj) := by
    rw [shapes, length_map, range_eq_range']
    refine (encodeGroups_eq_ok_iff fun i t ht => by rwa [zero_add]).mpr ⟨fun i t ht => ?_, rfl⟩
    rw [zero_add]
    exact ⟨(fits_iff hvalid).mp hfits i t ht, hscalable t (mem_of_getElem? ht)⟩
  have hlength : (encodedShapes obj).length = (codec.encodedDtypes obj).length := by
    rw [← shapes_encodedTensors codec, ← dtypes_encodedTensors codec, length_map, length_map]
  have hne : encodedShapes obj ≠ [] := by
    intro hnil
    obtain ⟨tensor, htensor⟩ := exists_mem_of_ne_nil _ obj.nonempty
    cases flatMap_eq_nil_iff.mp hnil _ (mem_map_of_mem htensor)
  obtain ⟨fresh, hfresh, hmade⟩ := allocateObj_ok (V := V) hlength hne hblock
  have hfreshFits : Fits fresh.rawData fresh.shapes fresh.dtypes := by
    rw [hmade.rawData, hmade.shapes, hmade.dtypes]
    exact hblockFits
  have hshapes := hmade.shapes.trans (shapes_encodedTensors codec obj).symm
  have hdtypes := hmade.dtypes.trans (dtypes_encodedTensors codec obj).symm
  obtain ⟨filled, hfilled, halike, htensors⟩ :=
    foldlM_slots_ok fillSlot copied hshapes hdtypes fun i src hsrc before hbefore => by
      obtain ⟨dst, hget, hshape, hdtype⟩ :=
        hbefore.slot hmade.valid hfreshFits hshapes hdtypes hsrc
      exact fillSlot_ok hget hshape hdtype
  refine ⟨{ filled with
    extra := some (encodedExtra obj)
    cachedPositions := obj.cachedPositions }, ?_, ⟨htensors, ?_, rfl, ?_⟩⟩
  · rw [encode, hplain, hgroups]
    simp only [Bool.false_eq_true, if_false, bind, Except.bind, shapes_encodedTensors,
      dtypes_encodedTensors, hfresh, required, hfilled]
    rfl
  · refine (fits_iff (halike.valid.trans hmade.valid)).mp ?_
    exact halike.rawData ▸ halike.shapes ▸ halike.dtypes ▸ hfreshFits
  · exact halike.fmt.trans hmade.fmt

theorem encode_inv {encoded : CodecObj V} (hplain : isEncodedMemoryObj obj = false)
    (h : codec.encode allocator obj = .ok encoded) :
    obj.valid = true ∧ Fits obj.rawData obj.shapes obj.dtypes ∧
      (∀ tensor ∈ obj.tensors, Scalable tensor) ∧
      ∃ block, allocator.allocate (encodedShapes obj) (codec.encodedDtypes obj) obj.fmt =
        some block ∧ Fits block.rawData (encodedShapes obj) (codec.encodedDtypes obj) := by
  rw [encode, hplain, if_neg Bool.false_ne_true] at h
  simp only [bind_eq_ok_iff, required_eq_ok_iff] at h
  obtain ⟨srcs, hgroups, _, hallocated, fresh, rfl, filled, hfilled, _⟩ := h
  rw [shapes, length_map, range_eq_range',
    encodeGroups_eq_ok_iff fun i t ht => by rwa [zero_add]] at hgroups
  simp only [zero_add] at hgroups
  obtain ⟨hgot, hsrcs⟩ := hgroups
  have hvalid : obj.valid = true := by
    have hfirst := getElem?_eq_getElem (length_pos_of_ne_nil obj.nonempty)
    exact (getTensor_iff.mp (hgot 0 _ hfirst).1).1
  refine ⟨hvalid, (fits_iff hvalid).mpr fun i t ht => (hgot i t ht).1, fun tensor htensor => ?_, ?_⟩
  · obtain ⟨i, hi⟩ := mem_iff_getElem?.mp htensor
    exact (hgot i tensor hi).2
  · rw [hsrcs, ← encodedTensors, shapes_encodedTensors, dtypes_encodedTensors] at hallocated
    obtain ⟨block, hblock, hmade⟩ := allocateObj_inv hallocated
    refine ⟨block, hblock, ?_⟩
    rw [← hmade.rawData, ← hmade.shapes, ← hmade.dtypes]
    refine fits_of_got fun i hi => ?_
    have hsrc : ∃ src, srcs[i]? = some src := by
      rw [hmade.shapes, ← shapes_encodedTensors codec, length_map] at hi
      exact ⟨_, getElem?_eq_getElem (hsrcs ▸ hi)⟩
    obtain ⟨src, hsrc⟩ := hsrc
    obtain ⟨before, after, halike, hafter⟩ := (foldlM_slots_inv fillSlot_alike (.refl fresh)
      hfilled).2 (src, i) (mk_mem_zipIdx_iff_getElem?.mpr hsrc)
    obtain ⟨dst, _, hget, _⟩ := fillSlot_inv hafter
    exact ⟨before, dst, halike, hget⟩

theorem dtypeFromStr_dtypeToStr (dtype : TorchDtype) :
    dtypeFromStr (dtypeToStr dtype) = some dtype := by
  cases dtype <;> decide

theorem dtypesFromStr_map (dtypes : List TorchDtype) :
    dtypesFromStr (dtypes.map dtypeToStr) = .ok dtypes := by
  induction dtypes with
  | nil => rfl
  | cons dtype dtypes ih =>
    rw [map_cons, dtypesFromStr, dtypeFromStr_dtypeToStr, ih]
    rfl

theorem getElem?_flatMap_pair {A B : Type} {f g : A → B} {xs : List A} {a : A}
    (h : xs[i]? = some a) : (xs.flatMap fun a => [f a, g a])[2 * i]? = some (f a) ∧
      (xs.flatMap fun a => [f a, g a])[2 * i + 1]? = some (g a) := by
  induction xs generalizing i with
  | nil => cases h
  | cons x xs ih =>
    cases i with
    | zero =>
      obtain rfl := Option.some.inj h
      exact ⟨rfl, rfl⟩
    | succ i => exact ih h

theorem Encoded.pair {encoded : CodecObj V} (h : codec.Encoded obj encoded) {t : Tensor}
    (ht : obj.tensors[i]? = some t) :
    encoded.tensors[2 * i]? = some (codec.quantized t).copied ∧
      encoded.tensors[2 * i + 1]? = some (codec.storedScale t).copied := by
  rw [h.tensors, encodedTensors, map_flatMap]
  exact getElem?_flatMap_pair ht

variable (codec) in
def restored (t : Tensor) : Tensor where
  shape := t.shape
  dtype := t.dtype
  value := fun index => (codec.quantized t).copied.value (source t.shape index) *
    (codec.storedScale t).copied.value (source (keepLast t.shape) index)

theorem decodeBaseTensor_ok (t : Tensor) : decodeBaseTensor (codec.quantized t).copied
    (codec.storedScale t).copied t.dtype = .ok (codec.restored t) := by
  have hproduct : ((codec.quantized t).copied.toDtype .float32).zipWith (· * ·)
      ((codec.storedScale t).copied.toDtype .float32) = .ok ⟨t.shape, .float32,
        (codec.restored t).value⟩ := by
    simp only [Tensor.zipWith, Tensor.toDtype, Tensor.copied, quantized, storedScale,
      common_keepLast]
    rfl
  rw [decodeBaseTensor, hproduct]
  rfl

variable {encoded decoded : CodecObj V}

theorem decodeGroup_ok (h : codec.Encoded obj encoded) {t dst : Tensor}
    (ht : obj.tensors[i]? = some t) (hget : decoded.getTensor i = .ok (some dst))
    (hshape : dst.shape = t.shape) (hdtype : dst.dtype = t.dtype) :
    decodeGroup encoded decoded i = .ok (decoded.set i (codec.restored t).copied) := by
  obtain ⟨hquantized, hscale⟩ := h.pair ht
  have hcopy : dst.copy (codec.restored t) = .ok (codec.restored t).copied :=
    copy_eq hshape hdtype
  rw [decodeGroup, mul_comm i 2, h.views _ _ hquantized, h.views _ _ hscale, hget]
  simp only [bind, Except.bind, required, hdtype, decodeBaseTensor_ok, hcopy]
  rfl

theorem decodeGroup_inv {encoded decoded filled : CodecObj V}
    (h : decodeGroup encoded decoded i = .ok filled) :
    ∃ dst t, decoded.getTensor i = .ok (some dst) ∧ t.shape = dst.shape ∧ t.dtype = dst.dtype ∧
      filled = decoded.set i t := by
  simp only [decodeGroup, bind_eq_ok_iff, required_eq_ok_iff] at h
  obtain ⟨_, _, _, _, _, hget, _, rfl, _, rfl, dst, rfl, _, _, t, hcopy, heq⟩ := h
  obtain ⟨hshape, hdtype⟩ := shape_dtype_of_copy hcopy
  exact ⟨dst, t, hget, hshape, hdtype, (Except.ok.inj heq).symm⟩

theorem isEncoded_encoded {encoded : CodecObj V} (h : codec.Encoded obj encoded) :
    isEncodedMemoryObj encoded = true := by
  rw [isEncodedMemoryObj, h.extra]
  rfl

theorem decode_encoded {encoded : CodecObj V} (h : codec.Encoded obj encoded)
    (allocator : CodecAllocator) : decode allocator encoded = (do
      let fresh ← required .decodeAllocation
        (← allocator.allocateObj obj.shapes obj.dtypes obj.fmt)
      let decoded ← obj.tensors.zipIdx.foldlM
        (fun decoded slot => decodeGroup encoded decoded slot.2) fresh
      return { decoded with
        extra := decodedExtra (encodedExtra obj)
        cachedPositions := encoded.cachedPositions }) := by
  have hidxs : (range obj.shapes.length) = obj.tensors.zipIdx.map Prod.snd := by
    rw [zipIdx_map_snd, range_eq_range', shapes, length_map]
  have hcount : (encodedExtra obj).groupCount = some (obj.shapes.length : ℤ) := rfl
  have hshapes : (encodedExtra obj).originalShapes = some obj.shapes := rfl
  have hnames : (encodedExtra obj).originalDtypes = some (obj.dtypes.map dtypeToStr) := rfl
  rw [decode, isEncoded_encoded h, h.extra, h.fmt]
  simp only [Bool.not_true, Bool.false_eq_true, if_false, bind, Except.bind, required,
    Option.getD_some, hcount, hshapes, hnames, dtypesFromStr_map, Int.toNat_natCast, hidxs,
    foldlM_map]

theorem decode_ok {encoded : CodecObj V} {block : CodecBlock} (h : codec.Encoded obj encoded)
    (hblock : allocator.allocate obj.shapes obj.dtypes obj.fmt = some block)
    (hfits : Fits block.rawData obj.shapes obj.dtypes) :
    ∃ decoded, decode allocator encoded = .ok decoded ∧
      decoded.tensors = obj.tensors.map fun t => (codec.restored t).copied := by
  have hlength : obj.shapes.length = obj.dtypes.length := by
    rw [shapes, dtypes, length_map, length_map]
  have hne : obj.shapes ≠ [] := fun hnil => obj.nonempty (map_eq_nil_iff.mp hnil)
  obtain ⟨fresh, hfresh, hmade⟩ := allocateObj_ok (V := V) hlength hne hblock
  have hfreshFits : Fits fresh.rawData fresh.shapes fresh.dtypes := by
    rw [hmade.rawData, hmade.shapes, hmade.dtypes]
    exact hfits
  obtain ⟨decoded, hdecoded, _, htensors⟩ :=
    foldlM_slots_ok (fun decoded slot => decodeGroup encoded decoded slot.2)
      (fun t => (codec.restored t).copied) hmade.shapes hmade.dtypes fun i t ht before hbefore => by
        obtain ⟨dst, hget, hshape, hdtype⟩ :=
          hbefore.slot hmade.valid hfreshFits hmade.shapes hmade.dtypes ht
        exact decodeGroup_ok h ht hget hshape hdtype
  refine ⟨{ decoded with
    extra := decodedExtra (encodedExtra obj)
    cachedPositions := encoded.cachedPositions }, ?_, htensors⟩
  rw [decode_encoded h, hfresh]
  simp only [bind, Except.bind, required, hdecoded]
  rfl

theorem decode_inv (h : codec.Encoded obj encoded)
    (hdecode : decode allocator encoded = .ok decoded) :
    ∃ block, allocator.allocate obj.shapes obj.dtypes obj.fmt = some block ∧
      Fits block.rawData obj.shapes obj.dtypes := by
  rw [decode_encoded h] at hdecode
  simp only [bind_eq_ok_iff, required_eq_ok_iff] at hdecode
  obtain ⟨_, hallocated, fresh, rfl, filled, hfilled, _⟩ := hdecode
  obtain ⟨block, hblock, hmade⟩ := allocateObj_inv hallocated
  refine ⟨block, hblock, ?_⟩
  rw [← hmade.rawData, ← hmade.shapes, ← hmade.dtypes]
  refine fits_of_got fun i hi => ?_
  have ht : ∃ t, obj.tensors[i]? = some t := by
    rw [hmade.shapes, shapes, length_map] at hi
    exact ⟨_, getElem?_eq_getElem hi⟩
  obtain ⟨t, ht⟩ := ht
  have hkeeps : ∀ (before : CodecObj V) (slot : Tensor × ℕ) (after : CodecObj V),
      Alike before fresh → decodeGroup encoded before slot.2 = .ok after → Alike after fresh := by
    intro before slot after halike hafter
    obtain ⟨dst, t, hget, hshape, hdtype, rfl⟩ := decodeGroup_inv hafter
    exact halike.set_got hget hshape hdtype
  obtain ⟨before, after, halike, hafter⟩ := (foldlM_slots_inv hkeeps (.refl fresh) hfilled).2
    (t, i) (mk_mem_zipIdx_iff_getElem?.mpr ht)
  obtain ⟨dst, _, hget, _⟩ := decodeGroup_inv hafter
  exact ⟨before, dst, halike, hget⟩

section Rows

variable {index : List ℕ}

theorem row_map (f : ℚ → ℚ) (t : Tensor) (index : List ℕ) :
    (t.map f).row index = (t.row index).map f := by
  rw [Tensor.row, Tensor.row, Tensor.map]
  split_ifs
  · rfl
  · rw [map_map]
    rfl

theorem row_of_nil (hshape : tensor.shape = []) (index : List ℕ) :
    tensor.row index = [tensor.value index] :=
  if_pos hshape

theorem row_concat {dims outer : List ℕ} {size : ℕ} (hshape : tensor.shape = dims ++ [size])
    (i : ℕ) : tensor.row (outer ++ [i]) =
      (range size).map fun j => tensor.value (outer ++ [j]) := by
  rw [row, hshape, if_neg (append_ne_nil_of_right_ne_nil _ (cons_ne_nil _ _)),
    dropLast_concat, getLastD_concat]

theorem row_source (h : Within index tensor.shape) :
    tensor.row (source (keepLast tensor.shape) index) = tensor.row index := by
  rcases h.nil_or_concat with ⟨rfl, hshape⟩ | ⟨outer, i, dims, size, rfl, hshape, houter, _⟩
  · rw [hshape]
    rfl
  · rw [hshape, keepLast_concat, source_keepLast_concat houter, row_concat hshape,
      row_concat hshape]

theorem value_mem_row (h : Within index tensor.shape) : tensor.value index ∈ tensor.row index := by
  rcases h.nil_or_concat with ⟨rfl, hshape⟩ | ⟨outer, i, dims, size, rfl, hshape, _, hlt⟩
  · rw [row_of_nil hshape]
    exact mem_singleton_self _
  · rw [row_concat hshape]
    exact mem_map_of_mem (mem_range.mpr hlt)

variable (codec) in
theorem storedScale_row (h : Within index tensor.shape) :
    ∃ m, m ∈ (tensor.row index).map abs ∧ (∀ x ∈ tensor.row index, |x| ≤ m) ∧
      (codec.storedScale tensor).value (source (keepLast tensor.shape) index) =
        max (m / 127) codec.minScale := by
  have hne : (tensor.row index).map abs ≠ [] := by
    intro hnil
    have hmem := mem_map_of_mem (f := abs) (value_mem_row h)
    rw [hnil] at hmem
    cases hmem
  obtain ⟨m, hm⟩ := Option.isSome_iff_exists.mp (isSome_max?_of_ne_nil hne)
  obtain ⟨hmem, hmax⟩ := max?_eq_some_iff.mp hm
  refine ⟨m, hmem, fun x hx => hmax _ (mem_map_of_mem hx), ?_⟩
  rw [storedScale]
  dsimp only
  rw [row_map, row_source h, hm, Option.getD_some]

theorem copied_storedScale (h : Within index tensor.shape) :
    (codec.storedScale tensor).copied.value (source (keepLast tensor.shape) index) =
      (codec.storedScale tensor).value (source (keepLast tensor.shape) index) :=
  congrArg (codec.storedScale tensor).value (source_source_keepLast h)

variable (codec) in
theorem copied_quantized (h : Within index tensor.shape) :
    (codec.quantized tensor).copied.value index = clamp (-128) 127 (roundHalfEven
      (tensor.value index /
        (codec.storedScale tensor).value (source (keepLast tensor.shape) index))) := by
  rw [copied, quantized]
  dsimp only
  rw [source_of_within h, source_of_within h]

variable (codec) in
theorem copied_restored (h : Within index tensor.shape) :
    (codec.restored tensor).copied.value index = (codec.quantized tensor).copied.value index *
      (codec.storedScale tensor).value (source (keepLast tensor.shape) index) := by
  rw [copied, restored]
  dsimp only
  rw [source_of_within h, source_of_within h, copied_storedScale h]

variable (codec) in
theorem restoredAt (h : Within index tensor.shape) :
    codec.RestoredAt tensor (codec.quantized tensor).copied (codec.restored tensor).copied
      ((codec.storedScale tensor).copied.value
        (source (codec.storedScale tensor).copied.shape index)) index := by
  obtain ⟨m, hmem, hmax, hscale⟩ := storedScale_row codec h
  have hstep : max (m / 127) codec.minScale = stepOf 127 codec.minScale m := by
    rw [stepOf, cast_ofNat]
  have hlevel : |roundHalfEven (tensor.value index / stepOf 127 codec.minScale m)| ≤ 127 :=
    abs_roundHalfEven_le (abs_div_stepOf_le (by norm_num) codec.positive
      (hmax _ (value_mem_row h)))
  have hquantized := copied_quantized codec h
  rw [hscale, hstep, clamp_of_abs_le (by norm_num) (by norm_num) hlevel] at hquantized
  have hrestored := copied_restored codec h
  rw [hscale, hstep, hquantized] at hrestored
  have hshape : (codec.storedScale tensor).copied.shape = keepLast tensor.shape := rfl
  rw [hshape, copied_storedScale h, hscale, hstep]
  refine ⟨hquantized ▸ hrestored, ⟨m, hmem, hmax, hstep.symm⟩,
    ⟨_, hquantized, abs_le.mp hlevel⟩, ?_⟩
  rw [hrestored]
  exact abs_sub_mul_roundHalfEven_le (stepOf_pos codec.positive 127 m) _

end Rows

theorem roundTrip (h : codec.Encoded obj encoded)
    (htensors : decoded.tensors = obj.tensors.map fun t => (codec.restored t).copied) :
    codec.RoundTrip obj encoded decoded := by
  refine ⟨?_, ?_, fun i tensor ht => ?_⟩
  · rw [shapes, htensors, map_map]
    rfl
  · rw [dtypes, htensors, map_map]
    rfl
  · obtain ⟨hquantized, hscale⟩ := h.pair ht
    refine ⟨_, _, (codec.restored tensor).copied, hquantized, hscale, ?_,
      fun index hindex => restoredAt codec hindex⟩
    rw [htensors, getElem?_map, ht, Option.map_some]

theorem codecLaw_iff (codec : Int8BaseCodec) (encodeAllocator decodeAllocator : CodecAllocator)
    (obj : CodecObj V) : codec.CodecLaw encodeAllocator decodeAllocator obj ↔
      (isEncodedMemoryObj obj = false → codec.Codable encodeAllocator decodeAllocator obj) := by
  cases hplain : isEncodedMemoryObj obj with
  | true =>
    refine iff_of_true ⟨fun _ => ?_, fun h => ?_⟩ fun h => ?_
    · rw [encode, hplain, if_pos rfl]
    · rw [hplain] at h
      cases h
    · cases h
  | false =>
    rw [forall_prop_of_true rfl]
    constructor
    · rintro ⟨_, h⟩
      obtain ⟨_, encoded, decoded, hencode, _, hdecode, _⟩ := h hplain
      obtain ⟨hvalid, hfits, hscalable, block, hblock, hblockFits⟩ := encode_inv hplain hencode
      obtain ⟨encoded', hencode', hencoded⟩ :=
        encode_ok hplain hvalid hfits hscalable hblock hblockFits
      obtain rfl := Except.ok.inj (hencode.symm.trans hencode')
      exact ⟨hvalid, hfits, hscalable, ⟨block, hblock, hblockFits⟩, decode_inv hencoded hdecode⟩
    · intro h
      refine ⟨fun hcodec => ?_, fun _ => ⟨?_, ?_⟩⟩
      · rw [hplain] at hcodec
        cases hcodec
      · rw [decode, hplain, Bool.not_false, if_pos rfl]
      · obtain ⟨block, hblock, hblockFits⟩ := h.encoded
        obtain ⟨encoded, hencode, hencoded⟩ :=
          encode_ok hplain h.valid h.fits h.scalable hblock hblockFits
        obtain ⟨block', hblock', hblockFits'⟩ := h.decoded
        obtain ⟨decoded, hdecode, htensors⟩ := decode_ok hencoded hblock' hblockFits'
        refine ⟨encoded, decoded, hencode, ?_, hdecode, roundTrip hencoded htensors⟩
        rw [encode, isEncoded_encoded hencoded, if_pos rfl]

section Aligned

variable {shapes : List (List ℕ)} {dtypes : List TorchDtype}

def Aligned (start : ℕ) (shapes : List (List ℕ)) (dtypes : List TorchDtype) : Prop :=
  ∀ i shape dtype, shapes[i]? = some shape → dtypes[i]? = some dtype →
    dtype.itemsize ∣ start + offset (sizesOf shapes dtypes) i

theorem fits_iff_aligned {rawData : Region} (hsize : rawData.size = (sizesOf shapes dtypes).sum) :
    Fits rawData shapes dtypes ↔ Aligned rawData.start shapes dtypes := by
  refine forall_congr' fun i => forall₂_congr fun shape dtype =>
    forall₂_congr fun hshape hdtype => ?_
  have hgroup : (sizesOf shapes dtypes)[i]? = some (numel shape * dtype.itemsize) := by
    rw [sizesOf, getElem?_zipWith, hshape, hdtype]
  have hnext := offset_succ hgroup
  have hfirst := offset_le_sum (sizesOf shapes dtypes) i
  have hlast := offset_le_sum (sizesOf shapes dtypes) (i + 1)
  rw [bytesOf, slice, hsize, min_eq_left hfirst, min_eq_left hlast, hnext, Nat.add_sub_cancel_left]
  exact and_iff_right rfl

theorem aligned_cons_iff {start : ℕ} {shape : List ℕ} {dtype : TorchDtype} :
    Aligned start (shape :: shapes) (dtype :: dtypes) ↔ dtype.itemsize ∣ start ∧
      Aligned (start + numel shape * dtype.itemsize) shapes dtypes := by
  have hoffset : ∀ i, start + offset (sizesOf (shape :: shapes) (dtype :: dtypes)) (i + 1) =
      start + numel shape * dtype.itemsize + offset (sizesOf shapes dtypes) i := by
    intro i
    rw [sizesOf, zipWith_cons_cons, offset_cons_succ, ← sizesOf, add_assoc]
  constructor
  · intro h
    refine ⟨h 0 shape dtype rfl rfl, fun i shape' dtype' hshape hdtype => ?_⟩
    rw [← hoffset]
    exact h (i + 1) shape' dtype' hshape hdtype
  · rintro ⟨hfirst, hrest⟩ i shape' dtype' hshape hdtype
    cases i with
    | zero =>
      obtain rfl := Option.some.inj hdtype
      exact hfirst
    | succ i =>
      rw [hoffset]
      exact hrest i shape' dtype' hshape hdtype

theorem aligned_pairs_iff {start : ℕ} (hstart : codec.scaleDtype.itemsize ∣ start)
    (shapes : List (List ℕ)) :
    Aligned start (shapes.flatMap fun shape => [shape, keepLast shape])
        (shapes.flatMap fun _ => [.int8, codec.scaleDtype]) ↔
      ∀ shape ∈ shapes, codec.scaleDtype.itemsize ∣ numel shape := by
  induction shapes generalizing start with
  | nil => exact iff_of_true (fun _ _ _ hshape => nomatch hshape) fun _ hmem => nomatch hmem
  | cons shape shapes ih =>
    have hlevels : numel shape * TorchDtype.int8.itemsize = numel shape := mul_one _
    simp only [flatMap_cons, cons_append, nil_append]
    rw [aligned_cons_iff, aligned_cons_iff, hlevels, forall_mem_cons, Nat.dvd_add_right hstart]
    refine (and_iff_right (one_dvd start)).trans (and_congr_right fun hnumel => ?_)
    exact ih (dvd_add (dvd_add hstart hnumel) (dvd_mul_left _ _))

theorem fits_encoded_iff {rawData : Region} (hsize : rawData.size =
      (sizesOf (encodedShapes obj) (codec.encodedDtypes obj)).sum)
    (hstart : codec.scaleDtype.itemsize ∣ rawData.start) :
    Fits rawData (encodedShapes obj) (codec.encodedDtypes obj) ↔
      ∀ shape ∈ obj.shapes, codec.scaleDtype.itemsize ∣ numel shape := by
  have hdtypes : codec.encodedDtypes obj = obj.shapes.flatMap fun _ =>
      [.int8, codec.scaleDtype] := by
    rw [encodedDtypes, dtypes, shapes, flatMap_map, flatMap_map]
  rw [fits_iff_aligned hsize, hdtypes, encodedShapes]
  exact aligned_pairs_iff hstart obj.shapes

end Aligned

def sixItems : CodecObj Unit where
  tensors := [⟨[2, 1, 1, 3], .bfloat16, fun _ => 1⟩]
  nonempty := cons_ne_nil _ _
  rawData := ⟨0, 12⟩
  valid := true
  fmt := .kv2ltd
  cachedPositions := none
  extra := none

theorem fits_encoded_iff_sixItems : Fits ⟨0, 14⟩ (encodedShapes sixItems)
    (create.encodedDtypes sixItems) ↔
      ∀ shape ∈ sixItems.shapes, create.scaleDtype.itemsize ∣ numel shape :=
  fits_encoded_iff rfl (dvd_zero _)

def freshBytes : CodecAllocator where
  allocate shapes dtypes _ := some ⟨⟨0, (sizesOf shapes dtypes).sum⟩, fun _ _ => 0⟩

theorem not_codecLaw_sixItems :
    create.encode freshBytes sixItems = .error (.tensor .viewError) ∧
      ¬ create.CodecLaw freshBytes freshBytes sixItems := by
  have hencode : create.encode freshBytes sixItems = .error (.tensor .viewError) := by rfl
  refine ⟨hencode, fun h => ?_⟩
  obtain ⟨_, encoded, _, hencoded, _⟩ := h.2 rfl
  rw [hencode] at hencoded
  cases hencoded

end Int8BaseCodec

end LMCache.Fidelity
