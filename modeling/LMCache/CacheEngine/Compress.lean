import LMCache.StorageBackend.TouchCache

namespace LMCache

open Option CPUState

structure CodecConfig where
  useLayerwise : Bool
  numLayers : ℕ
  useHot : Bool
  serializesToBuffer : Bool
  deserializesToBuffer : Bool

-- collects says of an object that nobody but the call refers to it and that its __del__ has not run
structure CodecCall where
  method : String
  eventId : String
  healthy : Bool
  active : Bool
  collects : ℕ → Bool

structure CodecState where
  cpu : CPUState
  buffers : ℕ → Bool
  lookupPins : Dict String (Dict String (List HotKey))

namespace CodecState

def localCPU : String := "LocalCPUBackend"

def counting (st : CodecState) (obj : ℕ) (cpu : CPUState) : CodecState :=
  { st with
    cpu := if st.buffers obj then { cpu with objs := st.cpu.objs, held := st.cpu.held } else cpu }

def getBlocking (st : CodecState) (key : HotKey) : Option ℕ × CodecState :=
  match st.cpu.hotCache.get? key with
  | none => (none, st)
  | some obj => (some obj, st.counting obj (st.cpu.getBlocking key))

def batchedGet : List HotKey → CodecState → Option (List ℕ) × CodecState
  | [], st => (some [], st)
  | key :: keys, st =>
      let (memObj, st) := st.getBlocking key
      let (memObjs, st) := batchedGet keys st
      (memObj.bind fun obj => memObjs.map (obj :: ·), st)

def newObj (st : CodecState) (buffer : Bool) : CodecState :=
  { st with
    cpu := st.cpu.allocate
    buffers := fun i => if i = st.cpu.nextObj then buffer else st.buffers i }

def unpinObj (st : CodecState) (obj : ℕ) : CodecState :=
  { st with cpu := st.cpu.modify obj MemObj.unpin }

def convertAll (toBuffer : Bool) : List ℕ → CodecState → List ℕ × CodecState
  | [], st => ([], st)
  | obj :: memObjs, st =>
      let (converted, rest) := convertAll toBuffer memObjs ((st.newObj toBuffer).unpinObj obj)
      (st.cpu.nextObj :: converted, rest)

def remove (st : CodecState) (key : HotKey) : Bool × CodecState :=
  match st.cpu.hotCache.get? key with
  | none => (false, st)
  | some obj =>
      let (raises, cpu) := st.cpu.remove key
      (raises, st.counting obj (if raises then cpu else cpu.queueEvict key))

def batchedRemove : List HotKey → CodecState → Bool × CodecState
  | [], st => (false, st)
  | key :: keys, st =>
      let (raises, st) := st.remove key
      if raises then (true, st) else batchedRemove keys st

def submitPutTask (st : CodecState) (key : HotKey) (obj : ℕ) : CodecState :=
  st.counting obj (st.cpu.submitPutTask key obj)

def refCountDown (st : CodecState) (obj : ℕ) : CodecState :=
  st.counting obj (st.cpu.refCountDown obj)

variable (cfg : CodecConfig)

def batchedPut (keys : List HotKey) (memObjs : List ℕ) (st : CodecState) : CodecState :=
  let st := if cfg.useHot then
    (keys.zip memObjs).foldl (fun st p => st.submitPutTask p.1 p.2) st else st
  memObjs.foldl refCountDown st

def collect (st : CodecState) (memObjs : List ℕ) (collects : ℕ → Bool) : CodecState :=
  let objs := fun i =>
    if i ∈ memObjs ∧ i ∉ st.cpu.hotCache.values ∧ collects i = true then (st.cpu.objs i).free
    else st.cpu.objs i
  { st with cpu := { st.cpu with objs := objs } }

def batchedContains (st : CodecState) (call : CodecCall) (keys : List HotKey) : ℕ × CodecState :=
  if call.active then
    let (hitChunks, cpu) := batchedAsyncContains true keys st.cpu
    (hitChunks, { st with cpu := cpu })
  else (0, st)

def extendPins (st : CodecState) (eventId : String) (keys : List HotKey) : CodecState :=
  let pins := (st.lookupPins.get? eventId).getD Dict.empty
  { st with
    lookupPins := st.lookupPins.set eventId
      (pins.set localCPU ((pins.get? localCPU).getD [] ++ keys)) }

def lookupLayers (cfg : CodecConfig) (call : CodecCall) :
    List (ℕ × ℕ × HotKey) → ℕ → CodecState → ℕ × CodecState
  | [], res, st => (res, st)
  | (_, stop, key) :: segments, res, st =>
      let keyAllLayers := key.splitLayers cfg.numLayers
      let (hitChunks, st) := st.batchedContains call keyAllLayers
      if hitChunks = cfg.numLayers ∧ hitChunks ≠ 0 then
        lookupLayers cfg call segments stop (st.extendPins call.eventId keyAllLayers)
      else (res, st)

def lookupChunks (call : CodecCall) (segments : List (ℕ × ℕ × HotKey)) (st : CodecState) :
    ℕ × CodecState :=
  let keys := segments.map fun segment => segment.2.2
  let (hitChunks, st) := st.batchedContains call keys
  ((((segments.take hitChunks).getLast?).map fun segment => segment.2.1).getD 0,
    if hitChunks = 0 then st
    else
      { st with
        lookupPins := st.lookupPins.set call.eventId
          (Dict.empty.set localCPU (keys.take hitChunks)) })

variable (segments : List (ℕ × ℕ × HotKey)) (call : CodecCall)

def lookup (st : CodecState) : Option ℕ × CodecState :=
  if call.healthy = false then (some 0, st)
  else
    let (res, st) := if cfg.useLayerwise then lookupLayers cfg call segments 0 st
      else lookupChunks call segments st
    (if touchRaises st.cpu.keysInRequest.reverse st.cpu then none else some res,
      { st with cpu := st.cpu.touchCache })

def pinsOf (st : CodecState) (eventId : String) : Dict String (List HotKey) × CodecState :=
  match st.lookupPins.get? eventId with
  | some blockMapping => (blockMapping, st)
  | none =>
      (Dict.empty, { st with lookupPins := st.lookupPins.set eventId Dict.empty })

def replace (toBuffer : Bool) (call : CodecCall) (keys : List HotKey) (memObjs : List ℕ)
    (st : CodecState) : Bool × CodecState :=
  let (converted, st) := convertAll toBuffer memObjs st
  let (raises, st) := batchedRemove keys st
  (raises, (if raises then st else batchedPut cfg keys converted st).collect memObjs call.collects)

def recode (toBuffer : Bool) (segments : List (ℕ × ℕ × HotKey)) (call : CodecCall)
    (st : CodecState) : Option ℕ × CodecState :=
  if call.method ∉ ["cachegen"] then (some 0, st)
  else
    match lookup cfg segments call st with
    | (none, st) => (none, st)
    | (some numTokens, st) =>
        if numTokens = 0 then (some 0, st)
        else
          let (blockMapping, st) := st.pinsOf call.eventId
          if blockMapping.items.length ≠ 1 then (none, st)
          else
            let keys := (blockMapping.get? localCPU).getD []
            match batchedGet keys st with
            | (none, st) => (none, st)
            | (some memObjs, st) =>
                let (raises, st) := replace cfg toBuffer call keys memObjs st
                (if raises then none else some numTokens, st)

def compress (st : CodecState) :
    Option ℕ × CodecState := recode cfg cfg.serializesToBuffer segments call st

def decompress (st : CodecState) :
    Option ℕ × CodecState := recode cfg cfg.deserializesToBuffer segments call st

def keysOf (key : HotKey) : List HotKey :=
  if cfg.useLayerwise then key.splitLayers cfg.numLayers else [key]

structure Conserved (cfg : CodecConfig) (segments : List (ℕ × ℕ × HotKey)) (call : CodecCall)
    (st : CodecState) (ret : Option ℕ) (st' : CodecState) : Prop where
  sameKeys : ∀ key, st'.cpu.hotCache.contains key = st.cpu.hotCache.contains key
  mapped : ∀ numTokens ∈ ret, ∀ segment ∈ segments, 0 < segment.2.1 → segment.2.1 ≤ numTokens →
    ∀ key ∈ keysOf cfg segment.2.2, ∃ obj, st'.cpu.hotCache.get? key = some obj ∧
      st.cpu.nextObj ≤ obj ∧ st'.cpu.canEvict obj = true
  freed : ∀ key obj, st.cpu.hotCache.get? key = some obj → obj ∉ st'.cpu.hotCache.values →
    (st'.cpu.objs obj).valid = false
  unpinned : ∀ obj, (st'.cpu.objs obj).pinCount ≤ (st.cpu.objs obj).pinCount
  unlisted : st'.lookupPins.get? call.eventId = none

def askedKeys : List HotKey :=
  if cfg.useLayerwise then (segments.take 1).flatMap fun segment => segment.2.2.splitLayers cfg.numLayers
  else segments.map fun segment => segment.2.2

structure Quiet (cfg : CodecConfig) (segments : List (ℕ × ℕ × HotKey)) (call : CodecCall)
    (st : CodecState) : Prop where
  unlisted : st.lookupPins.get? call.eventId = none
  missing : call.method = "cachegen" → call.healthy = true → call.active = true →
    ∀ key ∈ (askedKeys cfg segments).head?, st.cpu.hotCache.contains key = false

section pins

open CPUState

variable {cpu : CPUState} {key : HotKey}

theorem pinCount_le_contains (cpu : CPUState) (key : HotKey) (obj : ℕ) :
    (cpu.objs obj).pinCount ≤ ((cpu.contains key true).objs obj).pinCount := by
  rw [contains]
  split_ifs
  · rw [modifyKey]
    split
    · exact le_rfl
    · rename_i obj' _
      change _ ≤ (if obj = obj' then (cpu.objs obj).pin else cpu.objs obj).pinCount
      split_ifs
      · exact Nat.le_succ _
      · exact le_rfl
  · exact le_rfl

theorem pinCount_le_batchedAsyncContains (keys : List HotKey) (cpu : CPUState) (obj : ℕ) :
    (cpu.objs obj).pinCount ≤ ((batchedAsyncContains true keys cpu).2.objs obj).pinCount := by
  induction keys generalizing cpu with
  | nil => exact le_rfl
  | cons key keys ih =>
    rw [batchedAsyncContains]
    split_ifs
    · exact (pinCount_le_contains cpu key obj).trans (ih (cpu.contains key true))
    · exact le_rfl

theorem exists_pinned_batchedAsyncContains (hstored : cpu.hotCache.contains key = true)
    (keys : List HotKey) :
    (batchedAsyncContains true (key :: keys) cpu).1 ≠ 0 ∧
      ∃ obj, (cpu.objs obj).pinCount <
        ((batchedAsyncContains true (key :: keys) cpu).2.objs obj).pinCount := by
  obtain ⟨obj, hget⟩ := isSome_iff_exists.mp hstored
  rw [batchedAsyncContains, if_pos hstored]
  refine ⟨Nat.succ_ne_zero _, obj, lt_of_lt_of_le ?_
    (pinCount_le_batchedAsyncContains keys (cpu.contains key true) obj)⟩
  rw [contains, hstored, Bool.and_true, if_pos rfl, modifyKey]
  dsimp only
  rw [hget]
  change _ < (if obj = obj then (cpu.objs obj).pin else cpu.objs obj).pinCount
  rw [if_pos rfl]
  exact Nat.lt_succ_self _

theorem batchedAsyncContains_of_missing {keys : List HotKey}
    (hmissing : ∀ key ∈ keys.head?, cpu.hotCache.contains key = false) :
    batchedAsyncContains true keys cpu = (0, cpu) := by
  cases keys with
  | nil => rfl
  | cons key keys =>
    rw [batchedAsyncContains, hmissing key rfl]
    rfl

theorem touchKeys_frame (keys : List HotKey) (cpu : CPUState) :
    (touchKeys keys cpu).objs = cpu.objs ∧ (touchKeys keys cpu).nextObj = cpu.nextObj ∧
      ∀ key, (touchKeys keys cpu).hotCache.get? key = cpu.hotCache.get? key := by
  induction keys generalizing cpu with
  | nil => exact ⟨rfl, rfl, fun _ => rfl⟩
  | cons key keys ih =>
    rw [touchKeys]
    cases hhit : cpu.policy.updateOnHit key cpu.hotCache with
    | none => exact ⟨rfl, rfl, fun _ => rfl⟩
    | some hit =>
      obtain ⟨policy, hotCache⟩ := hit
      obtain ⟨hobjs, hnext, hget⟩ := ih { cpu with policy := policy, hotCache := hotCache }
      exact ⟨hobjs, hnext, fun key' =>
        (hget key').trans ((CachePolicy.hit_of_updateOnHit hhit).get? key')⟩

end pins

variable {cfg : CodecConfig} {segments : List (ℕ × ℕ × HotKey)} {call : CodecCall} {st : CodecState}

theorem lookupPins_getBlocking (st : CodecState) (key : HotKey) :
    (st.getBlocking key).2.lookupPins = st.lookupPins := by
  rw [getBlocking]
  split <;> rfl

variable (keys : List HotKey)

theorem lookupPins_batchedGet (st : CodecState) :
    (batchedGet keys st).2.lookupPins = st.lookupPins := by
  induction keys generalizing st with
  | nil => rfl
  | cons key keys ih => exact (ih _).trans (lookupPins_getBlocking st key)

variable (toBuffer : Bool)

theorem lookupPins_convertAll (memObjs : List ℕ) (st : CodecState) :
    (convertAll toBuffer memObjs st).2.lookupPins = st.lookupPins := by
  induction memObjs generalizing st with
  | nil => rfl
  | cons obj memObjs ih => exact ih _

theorem lookupPins_batchedRemove (st : CodecState) :
    (batchedRemove keys st).2.lookupPins = st.lookupPins := by
  induction keys generalizing st with
  | nil => rfl
  | cons key keys ih =>
    have hremove : (st.remove key).2.lookupPins = st.lookupPins := by
      rw [remove]
      split <;> rfl
    rw [batchedRemove]
    by_cases hraises : (st.remove key).1 = true
    · simp only [hraises, if_true, hremove]
    · simp only [hraises, if_false, Bool.false_eq_true, ih, hremove]

theorem lookupPins_batchedPut (memObjs : List ℕ) (st : CodecState) :
    (batchedPut cfg keys memObjs st).lookupPins = st.lookupPins := by
  have hfold : ∀ {A : Type} (f : CodecState → A → CodecState),
      (∀ st a, (f st a).lookupPins = st.lookupPins) → ∀ (as : List A) (st : CodecState),
        (as.foldl f st).lookupPins = st.lookupPins := by
    intro A f hf as
    induction as with
    | nil => exact fun _ => rfl
    | cons a as ih => exact fun st => (ih (f st a)).trans (hf st a)
  rw [batchedPut]
  refine (hfold refCountDown (fun _ _ => rfl) _ _).trans ?_
  split_ifs
  · exact hfold (fun st (p : HotKey × ℕ) => st.submitPutTask p.1 p.2) (fun _ _ => rfl) _ _
  · rfl

theorem lookupPins_replace (keys : List HotKey) (memObjs : List ℕ) (st : CodecState) :
    (replace cfg toBuffer call keys memObjs st).2.lookupPins = st.lookupPins := by
  have hremove := (lookupPins_batchedRemove keys (convertAll toBuffer memObjs st).2).trans
    (lookupPins_convertAll toBuffer memObjs st)
  rw [replace]
  change (if _ then _ else _ : CodecState).lookupPins = _
  split_ifs
  · exact hremove
  · exact (lookupPins_batchedPut _ _ _).trans hremove

def Listed (st : CodecState) (eventId : String) : Prop := st.lookupPins.get? eventId ≠ none

theorem lookupPins_batchedContains (st : CodecState) (call : CodecCall) (keys : List HotKey) :
    (st.batchedContains call keys).2.lookupPins = st.lookupPins := by
  rw [batchedContains]
  split_ifs <;> rfl

theorem listed_extendPins (st : CodecState) (eventId : String) (keys : List HotKey) :
    (st.extendPins eventId keys).Listed eventId := by
  rw [Listed, extendPins, Dict.get?_set_self]
  exact some_ne_none _

theorem listed_lookupLayers (segments : List (ℕ × ℕ × HotKey)) (res : ℕ)
    (h : st.Listed call.eventId) : (lookupLayers cfg call segments res st).2.Listed call.eventId := by
  induction segments generalizing st res with
  | nil => exact h
  | cons segment segments ih =>
    obtain ⟨start, stop, key⟩ := segment
    rw [lookupLayers]
    dsimp only
    split_ifs
    · exact ih stop (listed_extendPins _ _ _)
    · rw [Listed, lookupPins_batchedContains]
      exact h

theorem listed_lookupChunks {key : HotKey} (hactive : call.active = true)
    (hkey : key ∈ (segments.map fun segment => segment.2.2).head?)
    (hstored : st.cpu.hotCache.contains key = true) :
    Listed (lookupChunks call segments st).2 call.eventId := by
  cases segments with
  | nil => cases hkey
  | cons segment segments =>
    obtain rfl := some.inj hkey
    have hhits := (exists_pinned_batchedAsyncContains hstored
      (segments.map fun segment => segment.2.2)).1
    rw [lookupChunks, batchedContains, if_pos hactive]
    dsimp only
    rw [List.map_cons, if_neg hhits, Listed, Dict.get?_set_self]
    exact some_ne_none _

theorem marked_lookupLayers {key : HotKey} (hactive : call.active = true)
    (hkey : key ∈ ((segments.take 1).flatMap fun segment =>
      segment.2.2.splitLayers cfg.numLayers).head?)
    (hstored : st.cpu.hotCache.contains key = true) :
    (lookupLayers cfg call segments 0 st).2.Listed call.eventId ∨
      (lookupLayers cfg call segments 0 st).1 = 0 ∧
        ∃ obj, (st.cpu.objs obj).pinCount <
          ((lookupLayers cfg call segments 0 st).2.cpu.objs obj).pinCount := by
  cases segments with
  | nil => cases hkey
  | cons segment segments =>
    obtain ⟨start, stop, chunk⟩ := segment
    rw [List.take_succ_cons, List.take_zero, List.flatMap_singleton] at hkey
    obtain ⟨keys, hkeys⟩ := List.head?_eq_some_iff.mp hkey
    obtain ⟨_, hpinned⟩ := exists_pinned_batchedAsyncContains hstored keys
    rw [lookupLayers]
    dsimp only
    split_ifs
    · exact .inl (listed_lookupLayers _ _ (listed_extendPins _ _ _))
    · refine .inr ⟨rfl, ?_⟩
      rw [batchedContains, if_pos hactive, hkeys]
      exact hpinned

theorem touchCache_frame (cpu : CPUState) :
    cpu.touchCache.objs = cpu.objs ∧ cpu.touchCache.nextObj = cpu.nextObj ∧
      ∀ key, cpu.touchCache.hotCache.get? key = cpu.hotCache.get? key := touchKeys_frame _ cpu

theorem marked_lookup {key : HotKey} (hhealthy : call.healthy = true) (hactive : call.active = true)
    (hkey : key ∈ (askedKeys cfg segments).head?) (hstored : st.cpu.hotCache.contains key = true) :
    (lookup cfg segments call st).2.Listed call.eventId ∨
      (lookup cfg segments call st).1.getD 0 = 0 ∧
        ∃ obj, (st.cpu.objs obj).pinCount <
          ((lookup cfg segments call st).2.cpu.objs obj).pinCount := by
  rw [askedKeys] at hkey
  rw [lookup, hhealthy, if_neg (by simp)]
  by_cases hlayers : cfg.useLayerwise = true
  · rw [if_pos hlayers] at hkey ⊢
    rcases marked_lookupLayers hactive hkey hstored with hlisted | ⟨hzero, obj, hpinned⟩
    · exact .inl hlisted
    · refine .inr ⟨?_, obj, ?_⟩
      · dsimp only
        split_ifs
        · rfl
        · exact hzero
      · change _ < (objs (touchCache _) obj).pinCount
        rw [(touchCache_frame _).1]
        exact hpinned
  · rw [if_neg hlayers] at hkey ⊢
    exact .inl (listed_lookupChunks hactive hkey hstored)

structure Untouched (st st' : CodecState) : Prop where
  objs : st'.cpu.objs = st.cpu.objs
  get? : ∀ key, st'.cpu.hotCache.get? key = st.cpu.hotCache.get? key
  lookupPins : st'.lookupPins = st.lookupPins

theorem untouched_refl (st : CodecState) : Untouched st st := ⟨rfl, fun _ => rfl, rfl⟩

theorem batchedContains_of_missing {keys : List HotKey}
    (hmissing : call.active = true → ∀ key ∈ keys.head?, st.cpu.hotCache.contains key = false) :
    st.batchedContains call keys = (0, st) := by
  rw [batchedContains]
  split_ifs with hactive
  · rw [batchedAsyncContains_of_missing (hmissing hactive)]
  · rfl

theorem untouched_lookup (hmissing : call.healthy = true → call.active = true →
      ∀ key ∈ (askedKeys cfg segments).head?, st.cpu.hotCache.contains key = false) :
    Untouched st (lookup cfg segments call st).2 ∧ (lookup cfg segments call st).1.getD 0 = 0 := by
  rw [lookup]
  by_cases hhealthy : call.healthy = false
  · rw [if_pos hhealthy]
    exact ⟨untouched_refl st, rfl⟩
  rw [if_neg hhealthy]
  rw [Bool.not_eq_false] at hhealthy
  have hlookup : (if cfg.useLayerwise then lookupLayers cfg call segments 0 st
      else lookupChunks call segments st) = (0, st) := by
    have hasked := hmissing hhealthy
    rw [askedKeys] at hasked
    split_ifs at hasked ⊢
    · cases segments with
      | nil => rfl
      | cons segment segments =>
        obtain ⟨start, stop, key⟩ := segment
        rw [List.take_succ_cons, List.take_zero, List.flatMap_singleton] at hasked
        rw [lookupLayers]
        dsimp only
        rw [batchedContains_of_missing hasked]
        exact if_neg fun h => h.2 rfl
    · rw [lookupChunks, batchedContains_of_missing hasked]
      simp
  rw [hlookup]
  refine ⟨⟨(touchCache_frame st.cpu).1, (touchCache_frame st.cpu).2.2, rfl⟩, ?_⟩
  dsimp only
  split_ifs <;> rfl

theorem listed_lookup (h : st.Listed call.eventId) :
    (lookup cfg segments call st).2.Listed call.eventId := by
  rw [lookup]
  split_ifs
  · exact h
  · exact listed_lookupLayers segments 0 h
  · change (lookupChunks call segments st).2.Listed call.eventId
    rw [lookupChunks]
    dsimp only
    split_ifs
    · rw [Listed, lookupPins_batchedContains]
      exact h
    · rw [Listed, Dict.get?_set_self]
      exact some_ne_none _

theorem listed_recode {toBuffer : Bool} (hmethod : call.method = "cachegen")
    (h : (lookup cfg segments call st).2.Listed call.eventId) :
    (recode cfg toBuffer segments call st).2.Listed call.eventId := by
  rw [recode, if_neg (by simp [hmethod])]
  cases hlookup : lookup cfg segments call st with | mk res st' =>
  rw [hlookup] at h
  cases res with
  | none => exact h
  | some numTokens =>
    dsimp only
    obtain ⟨blockMapping, hblocks⟩ := ne_none_iff_exists'.mp h
    have hpins : st'.pinsOf call.eventId = (blockMapping, st') := by
      rw [pinsOf, hblocks]
    rw [hpins]
    split_ifs
    · exact h
    · exact h
    · have hget := lookupPins_batchedGet ((blockMapping.get? localCPU).getD []) st'
      dsimp only
      cases hobjs : batchedGet ((blockMapping.get? localCPU).getD []) st' with | mk memObjs st'' =>
      rw [hobjs] at hget
      change st''.lookupPins = _ at hget
      cases memObjs with
      | none =>
        rw [Listed, hget]
        exact h
      | some memObjs =>
        change ((replace cfg toBuffer call _ memObjs st'').2.lookupPins.get? call.eventId) ≠ none
        rw [lookupPins_replace, hget]
        exact h

theorem recode_of_nothing {toBuffer : Bool} (hmethod : call.method = "cachegen")
    (h : (lookup cfg segments call st).1.getD 0 = 0) :
    recode cfg toBuffer segments call st = lookup cfg segments call st := by
  rw [recode, if_neg (by simp [hmethod])]
  cases hlookup : lookup cfg segments call st with | mk res st' =>
  rw [hlookup] at h
  cases res with
  | none => rfl
  | some numTokens =>
    obtain rfl : numTokens = 0 := h
    rfl

theorem Quiet.untouched (h : Quiet cfg segments call st) (toBuffer : Bool) :
    Untouched st (recode cfg toBuffer segments call st).2 ∧
      (recode cfg toBuffer segments call st).1.getD 0 = 0 := by
  by_cases hmethod : call.method = "cachegen"
  · have hlookup := untouched_lookup (h.missing hmethod)
    rw [recode_of_nothing hmethod hlookup.2]
    exact hlookup
  · rw [recode, if_pos (by simp [hmethod])]
    exact ⟨untouched_refl st, rfl⟩

variable {st' : CodecState}

theorem Untouched.contains (h : Untouched st st') (key : HotKey) :
    st'.cpu.hotCache.contains key = st.cpu.hotCache.contains key := by
  rw [Dict.contains, Dict.contains, h.get?]

theorem Untouched.conserved {ret : Option ℕ} (h : Untouched st st') (hret : ret.getD 0 = 0)
    (hunlisted : st.lookupPins.get? call.eventId = none) :
    Conserved cfg segments call st ret st' := by
  refine ⟨h.contains, fun numTokens hsome segment _ hpos hle => ?_, fun key obj hget hgone => ?_,
    fun obj => ?_, ?_⟩
  · rw [mem_def.mp hsome] at hret
    rw [getD_some] at hret
    omega
  · rw [← h.get?] at hget
    exact absurd ((Dict.mem_values_iff _ _).mpr ⟨key, hget⟩) hgone
  · rw [h.objs]
  · rw [h.lookupPins]
    exact hunlisted

theorem conserved_recode_iff :
    Conserved cfg segments call st (recode cfg toBuffer segments call st).1
      (recode cfg toBuffer segments call st).2 ↔ Quiet cfg segments call st := by
  constructor
  · intro hconserved
    have hnone : st.lookupPins.get? call.eventId = none := by
      by_contra hlisted
      by_cases hmethod : call.method = "cachegen"
      · exact listed_recode hmethod (listed_lookup hlisted) hconserved.unlisted
      · have hunlisted := hconserved.unlisted
        rw [recode, if_pos (by simp [hmethod])] at hunlisted
        exact hlisted hunlisted
    refine ⟨hnone, fun hmethod hhealthy hactive key hkey => ?_⟩
    by_contra hstored
    rw [Bool.not_eq_false] at hstored
    rcases marked_lookup hhealthy hactive hkey hstored with hlisted | ⟨hzero, obj, hpinned⟩
    · exact listed_recode hmethod hlisted hconserved.unlisted
    · have hpins := hconserved.unpinned obj
      rw [recode_of_nothing hmethod hzero] at hpins
      omega
  · intro hquiet
    obtain ⟨huntouched, hret⟩ := hquiet.untouched toBuffer
    exact huntouched.conserved hret hquiet.unlisted

section replaced

theorem hotCache_counting (st : CodecState) (obj : ℕ) (cpu : CPUState) :
    (st.counting obj cpu).cpu.hotCache = cpu.hotCache := by
  rw [counting]
  dsimp only
  split_ifs <;> rfl

theorem get?_remove {key : HotKey} (h : (st.remove key).1 = false) (key' : HotKey) :
    (st.remove key).2.cpu.hotCache.get? key' =
      if key = key' then none else st.cpu.hotCache.get? key' := by
  cases hget : st.cpu.hotCache.get? key with
  | none =>
    have hremove : st.remove key = (false, st) := by
      rw [remove, hget]
    rw [hremove]
    split_ifs with heq
    · rw [← heq, hget]
    · rfl
  | some obj =>
    have hremove : st.remove key = ((st.cpu.remove key).1, st.counting obj
        (if (st.cpu.remove key).1 then (st.cpu.remove key).2
          else (st.cpu.remove key).2.queueEvict key)) := by
      rw [remove, hget]
    rw [hremove] at h ⊢
    dsimp only at h ⊢
    rw [hotCache_counting, h, ← Dict.get?_erase]
    refine congrArg (Dict.get? · key') ?_
    rw [CPUState.remove, hget] at h ⊢
    dsimp only at h ⊢
    split at h
    · cases h
    · rename_i policy hevict
      change (queueEvict _ key).hotCache = _
      rw [queueEvict]
      split_ifs <;> rfl

theorem get?_batchedRemove {keys : List HotKey} (h : (batchedRemove keys st).1 = false)
    (key' : HotKey) :
    (batchedRemove keys st).2.cpu.hotCache.get? key' =
      if key' ∈ keys then none else st.cpu.hotCache.get? key' := by
  induction keys generalizing st with
  | nil => rfl
  | cons key keys ih =>
    rw [batchedRemove] at h ⊢
    by_cases hraises : (st.remove key).1 = true
    · simp [hraises] at h
    · simp only [hraises, if_false, Bool.false_eq_true] at h ⊢
      rw [ih h, get?_remove (Bool.not_eq_true _ ▸ hraises)]
      simp only [List.mem_cons, @eq_comm _ key' key]
      split_ifs <;> simp_all

theorem get?_submitPutTask (st : CodecState) (key : HotKey) (obj : ℕ) (key' : HotKey) :
    (st.submitPutTask key obj).cpu.hotCache.get? key' =
      if key' = key then some ((st.cpu.hotCache.get? key).getD obj)
      else st.cpu.hotCache.get? key' := by
  rw [submitPutTask, hotCache_counting, CPUState.submitPutTask]
  split_ifs with hstored heq heq
  · obtain ⟨old, hget⟩ := isSome_iff_exists.mp hstored
    rw [heq, hget, getD_some]
  · rfl
  · rw [Dict.contains, Bool.not_eq_true, isSome_eq_false_iff, isNone_iff_eq_none] at hstored
    rw [heq, hstored]
    exact Dict.get?_set_self _ _ _
  · exact Dict.get?_set_ne _ _ (Ne.symm heq)

theorem get?_batchedPut (hhot : cfg.useHot = true) (st : CodecState) {keys : List HotKey} {memObjs : List ℕ}
    (hlength : keys.length = memObjs.length) (key : HotKey) :
    (∀ obj, st.cpu.hotCache.get? key = some obj →
        (batchedPut cfg keys memObjs st).cpu.hotCache.get? key = some obj) ∧
      (st.cpu.hotCache.get? key = none → key ∈ keys →
        ∃ obj ∈ memObjs, (batchedPut cfg keys memObjs st).cpu.hotCache.get? key = some obj) ∧
      (st.cpu.hotCache.get? key = none → key ∉ keys →
        (batchedPut cfg keys memObjs st).cpu.hotCache.get? key = none) := by
  have hdown : ∀ (objs : List ℕ) (st : CodecState),
      (objs.foldl refCountDown st).cpu.hotCache = st.cpu.hotCache := by
    intro objs
    induction objs with
    | nil => exact fun _ => rfl
    | cons obj objs ih => exact fun st => (ih _).trans (hotCache_counting st obj _)
  rw [batchedPut, if_pos hhot, hdown]
  clear hdown
  induction keys generalizing st memObjs with
  | nil => exact ⟨fun _ h => h, fun _ hmem => (List.not_mem_nil hmem).elim, fun h _ => h⟩
  | cons first keys ih =>
    cases memObjs with
    | nil => cases hlength
    | cons obj memObjs =>
      obtain ⟨hkept, hput, hnone⟩ := ih (st.submitPutTask first obj) (Nat.succ.inj hlength)
      rw [List.zip_cons_cons, List.foldl_cons]
      rw [get?_submitPutTask] at hkept hput hnone
      refine ⟨fun old hget => hkept old ?_, fun hget hmem => ?_, fun hget hmem => ?_⟩
      · split_ifs with heq
        · rw [← heq, hget, getD_some]
        · exact hget
      · by_cases heq : key = first
        · rw [if_pos heq, ← heq, hget, getD_none] at hkept
          exact ⟨obj, List.mem_cons_self, heq ▸ hkept obj rfl⟩
        · rw [if_neg heq] at hput
          obtain ⟨new, hnew, hget'⟩ := hput hget (List.mem_of_ne_of_mem heq hmem)
          exact ⟨new, List.mem_cons_of_mem _ hnew, hget'⟩
      · rw [List.mem_cons, not_or] at hmem
        rw [if_neg hmem.1] at hnone
        exact hnone hget hmem.2

theorem convertAll_frame (memObjs : List ℕ) (st : CodecState) :
    (convertAll toBuffer memObjs st).1.length = memObjs.length ∧
      (∀ obj ∈ (convertAll toBuffer memObjs st).1, st.cpu.nextObj ≤ obj) ∧
      (convertAll toBuffer memObjs st).2.cpu.hotCache = st.cpu.hotCache := by
  induction memObjs generalizing st with
  | nil => exact ⟨rfl, fun _ hmem => (List.not_mem_nil hmem).elim, rfl⟩
  | cons obj memObjs ih =>
    obtain ⟨hlength, hnew, hhot⟩ := ih ((st.newObj toBuffer).unpinObj obj)
    refine ⟨congrArg Nat.succ hlength, List.forall_mem_cons.mpr ⟨le_rfl, fun i hi => ?_⟩, hhot⟩
    exact (Nat.le_succ _).trans (hnew i hi)

theorem replace_completed {toBuffer : Bool} {keys : List HotKey} {memObjs : List ℕ}
    (hhot : cfg.useHot = true) (hlength : keys.length = memObjs.length)
    (hstored : ∀ key ∈ keys, st.cpu.hotCache.contains key = true)
    (hdone : (replace cfg toBuffer call keys memObjs st).1 = false) :
    (∀ key, (replace cfg toBuffer call keys memObjs st).2.cpu.hotCache.contains key =
        st.cpu.hotCache.contains key) ∧
      ∀ key ∈ keys, ∃ obj, st.cpu.nextObj ≤ obj ∧
        (replace cfg toBuffer call keys memObjs st).2.cpu.hotCache.get? key = some obj := by
  obtain ⟨hlength', hnew, hhot'⟩ := convertAll_frame toBuffer memObjs st
  have hremoved : (batchedRemove keys (convertAll toBuffer memObjs st).2).1 = false := hdone
  have hafter : (replace cfg toBuffer call keys memObjs st).2.cpu.hotCache =
      (batchedPut cfg keys (convertAll toBuffer memObjs st).1
        (batchedRemove keys (convertAll toBuffer memObjs st).2).2).cpu.hotCache := by
    rw [replace]
    simp only [hremoved, Bool.false_eq_true, if_false]
    rfl
  have hget := get?_batchedRemove hremoved
  have hput := get?_batchedPut hhot (batchedRemove keys (convertAll toBuffer memObjs st).2).2
    (hlength.trans hlength'.symm)
  have hmapped : ∀ key ∈ keys, ∃ obj, st.cpu.nextObj ≤ obj ∧
      (replace cfg toBuffer call keys memObjs st).2.cpu.hotCache.get? key = some obj := by
    intro key hkey
    obtain ⟨obj, hobj, hget'⟩ := (hput key).2.1 ((hget key).trans (if_pos hkey)) hkey
    exact ⟨obj, hnew obj hobj, hafter ▸ hget'⟩
  refine ⟨fun key => ?_, hmapped⟩
  by_cases hkey : key ∈ keys
  · obtain ⟨obj, _, hget'⟩ := hmapped key hkey
    rw [hstored key hkey, Dict.contains, hget']
    rfl
  · have hold : (batchedRemove keys (convertAll toBuffer memObjs st).2).2.cpu.hotCache.get? key =
        st.cpu.hotCache.get? key := by
      rw [hget key, if_neg hkey, hhot']
    rw [Dict.contains, Dict.contains, hafter]
    cases hcached : st.cpu.hotCache.get? key with
    | none => rw [(hput key).2.2 (hold.trans hcached) hkey]
    | some obj => rw [(hput key).1 obj (hold.trans hcached)]

end replaced

theorem quiet_iff_of_untouched (h : Untouched st st') :
    Quiet cfg segments call st' ↔ Quiet cfg segments call st := by
  constructor
  · refine fun hquiet => ⟨h.lookupPins ▸ hquiet.unlisted, fun hmethod hhealthy hactive key hkey => ?_⟩
    rw [← h.contains]
    exact hquiet.missing hmethod hhealthy hactive key hkey
  · refine fun hquiet => ⟨h.lookupPins.symm ▸ hquiet.unlisted,
      fun hmethod hhealthy hactive key hkey => ?_⟩
    rw [h.contains]
    exact hquiet.missing hmethod hhealthy hactive key hkey

theorem conserved_compress_decompress_iff (cfg : CodecConfig) (segments : List (ℕ × ℕ × HotKey))
    (call call' : CodecCall) (st : CodecState) :
    (Conserved cfg segments call st (compress cfg segments call st).1 (compress cfg segments call st).2 ∧
      Conserved cfg segments call' (compress cfg segments call st).2
        (decompress cfg segments call' (compress cfg segments call st).2).1
        (decompress cfg segments call' (compress cfg segments call st).2).2) ↔
      Quiet cfg segments call st ∧ Quiet cfg segments call' st := by
  rw [decompress, conserved_recode_iff, compress, conserved_recode_iff]
  exact and_congr_right fun hquiet =>
    quiet_iff_of_untouched (hquiet.untouched cfg.serializesToBuffer).1

def codecChunk : HotKey := .chunk ⟨['m'], 1, 0, 5, ['h', 'a', 'l', 'f'], []⟩

def codecConfig : CodecConfig := ⟨false, 1, true, true, false⟩

def codecCall : CodecCall := ⟨"cachegen", "event", true, true, fun _ => true⟩

def storedChunk : CodecState :=
  ⟨(((start .lru).allocate.submitPutTask codecChunk 0).refCountDown 0), fun _ => false, Dict.empty⟩

theorem replace_completed_storedChunk : ∃ obj, storedChunk.cpu.nextObj ≤ obj ∧
    (replace codecConfig true codecCall [codecChunk] [0] storedChunk).2.cpu.hotCache.get?
      codecChunk = some obj :=
  (replace_completed rfl rfl (by decide) (by decide)).2 _ List.mem_cons_self

theorem not_conserved_storedChunk :
    ¬ Conserved codecConfig [(0, 256, codecChunk)] codecCall storedChunk
      (compress codecConfig [(0, 256, codecChunk)] codecCall storedChunk).1
      (compress codecConfig [(0, 256, codecChunk)] codecCall storedChunk).2 := by
  intro hconserved
  have hunlisted := hconserved.unlisted
  revert hunlisted
  decide

end CodecState

end LMCache
