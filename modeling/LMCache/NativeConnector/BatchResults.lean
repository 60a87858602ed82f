import LMCache.NativeConnector.TileBatches

namespace LMCache

open Function List Nat

namespace NativeBatch

variable {K : Type} {b b' : NativeBatch K} {tile : ℕ} {i : ℕ} {key : K}

theorem getElem?_tileKeys (h : (b.tileKeys tile)[i]? = some key) :
    i < b.tileSize ∧ b.keys[b.tileStart tile + i]? = some key := by
  rw [tileKeys, getElem?_take] at h
  split_ifs at h with hlt
  rw [getElem?_drop] at h
  refine ⟨?_, h⟩
  have hend : b.tileEnd tile ≤ b.tileStart tile + b.tileSize := min_le_left _ _
  omega

theorem tile_eq_of_position {t t' i i' : ℕ} (hi : i < b.tileSize) (hi' : i' < b.tileSize)
    (h : b.tileStart t + i = b.tileStart t' + i') : t = t' ∧ i = i' := by
  rw [tileStart, tileStart] at h
  have hpos : 0 < b.tileSize := by omega
  have hdiv : ∀ t i, i < b.tileSize → (t * b.tileSize + i) / b.tileSize = t := by
    intro t i hi
    rw [mul_comm, mul_add_div hpos, div_eq_of_lt hi, add_zero]
  have heq : t = t' := by rw [← hdiv t i hi, h, hdiv t' i' hi']
  subst heq
  exact ⟨rfl, by omega⟩

structure Replied (b : NativeBatch K) : Prop where
  keyed : ∀ r ∈ b.replies, (b.tileKeys r.tile)[r.i]? = some r.key
  asked : ∀ r ∈ b.replies, (b.points r.tile).Asked r.i
  unique : ∀ r ∈ b.replies, ∀ r' ∈ b.replies, r.tile = r'.tile → r.i = r'.i → r = r'
  complete : b.batchOp = .batchTileExists → ∀ t, t ∉ b.threw →
    ∀ i < (b.points t).progress (b.tileKeys t).length, ∃ r ∈ b.replies, r.tile = t ∧ r.i = i

def Holds (b : NativeBatch K) (bytes : List ℕ) : Prop :=
  bytes.length = b.keys.length ∧
    ∀ r ∈ b.replies, bytes[b.tileStart r.tile + r.i]? = some r.answer.toNat

structure ResultsKept (b : NativeBatch K) : Prop where
  stored : b.pushed = [] → (∀ t completion, b.points t ≠ .push completion) → b.Holds b.existsResults
  pushing : ∀ t completion, b.points t = .push completion → b.Holds completion.resultBytes
  pushed : ∀ completion ∈ b.pushed, b.Holds completion.resultBytes

variable {point : TilePoint}

theorem Replied.step (h : b.Replied) (hpoints : b'.points = update b.points tile point)
    (hreplies : b'.replies = b.replies) (hthrew : ∀ t, t ∉ b'.threw → t ∉ b.threw)
    (hop : b'.batchOp = b.batchOp) (hkeys : b'.tileKeys = b.tileKeys)
    (hasked : ∀ i, (b.points tile).Asked i → point.Asked i)
    (hprogress : b.batchOp = .batchTileExists → tile ∉ b'.threw → point.progress (b.tileKeys tile).length ≤
      (b.points tile).progress (b.tileKeys tile).length) : b'.Replied := by
  refine ⟨?_, fun r hr => ?_, ?_, fun hexists t ht i hi => ?_⟩
  · rw [hreplies, hkeys]
    exact h.keyed
  · rw [hreplies] at hr
    rw [hpoints]
    have hold := h.asked r hr
    by_cases heq : r.tile = tile
    · rw [heq] at hold
      rw [heq, update_self]
      exact hasked r.i hold
    · rw [update_of_ne heq]
      exact hold
  · rw [hreplies]
    exact h.unique
  · rw [hpoints, hkeys] at hi
    rw [hreplies]
    refine h.complete (hop ▸ hexists) t (hthrew t ht) i ?_
    by_cases heq : t = tile
    · subst heq
      rw [update_self] at hi
      exact lt_of_lt_of_le hi (hprogress (hop ▸ hexists) ht)
    · rwa [update_of_ne heq] at hi

theorem ResultsKept.step (h : b.ResultsKept) (hpoints : b'.points = update b.points tile point)
    (hreplies : b'.replies = b.replies) (hkeys : b'.keys = b.keys)
    (hsize : b'.tileSize = b.tileSize) (hresults : b'.existsResults = b.existsResults)
    (hpushed : b'.pushed = b.pushed) (hold : ∀ completion, b.points tile ≠ .push completion)
    (hnew : ∀ completion, point ≠ .push completion) : b'.ResultsKept := by
  have hholds : ∀ bytes, b'.Holds bytes ↔ b.Holds bytes := by
    intro bytes
    rw [Holds, Holds, hkeys, hreplies]
    simp only [tileStart, hsize]
  have hpush : ∀ t completion, b'.points t = .push completion → b.points t = .push completion := by
    intro t completion hpoint
    rw [hpoints] at hpoint
    by_cases heq : t = tile
    · rw [heq, update_self] at hpoint
      exact absurd hpoint (hnew completion)
    · rwa [update_of_ne heq] at hpoint
  refine ⟨fun hnone hidle => ?_, fun t completion hpoint => ?_, fun completion hmem => ?_⟩
  · rw [hholds, hresults]
    refine h.stored (hpushed ▸ hnone) fun t completion hpoint => hidle t completion ?_
    have hne : t ≠ tile := by
      rintro rfl
      exact hold completion hpoint
    rw [hpoints, update_of_ne hne]
    exact hpoint
  · rw [hholds]
    exact h.pushing t completion (hpush t completion hpoint)
  · rw [hholds]
    exact h.pushed completion (hpushed ▸ hmem)

theorem reply_exists (hexists : b.batchOp = .batchTileExists) (tile i : ℕ) (key : K) (answer : Bool) :
    b.reply tile i key answer =
      { b with
        existsResults := b.existsResults.set (b.tileStart tile + i) answer.toNat
        replies := ⟨tile, i, key, answer⟩ :: b.replies } := if_pos hexists

theorem reply_other (hexists : b.batchOp ≠ .batchTileExists) (tile i : ℕ) (key : K) (answer : Bool) :
    b.reply tile i key answer = b := if_neg hexists

theorem Replied.reply (h : b.Replied) (answer : Bool) (hpoint : b.points tile = .running i)
    (hkey : (b.tileKeys tile)[i]? = some key) :
    ((b.reply tile i key answer).moveTo tile (.running (i + 1))).Replied := by
  by_cases hexists : b.batchOp = .batchTileExists
  · rw [reply_exists hexists]
    refine ⟨forall_mem_cons.mpr ⟨hkey, h.keyed⟩, fun r hr => ?_, fun r hr r' hr' htile hi => ?_,
      fun _ t ht j hj => ?_⟩
    · change (update b.points tile _ r.tile).Asked r.i
      rcases mem_cons.mp hr with rfl | hold
      · rw [update_self]
        exact lt_succ_self i
      · have hasked := h.asked r hold
        by_cases heq : r.tile = tile
        · rw [heq, hpoint] at hasked
          rw [heq, update_self]
          exact lt_succ_of_lt hasked
        · rwa [update_of_ne heq]
    · have hnew : ∀ r ∈ b.replies, r.tile = tile → r.i ≠ i := by
        intro r hr heq hi
        have hasked := h.asked r hr
        rw [heq, hpoint, hi] at hasked
        exact lt_irrefl i hasked
      rcases mem_cons.mp hr with rfl | hold <;> rcases mem_cons.mp hr' with rfl | hold'
      · rfl
      · exact absurd hi.symm (hnew r' hold' htile.symm)
      · exact absurd hi (hnew r hold htile)
      · exact h.unique r hold r' hold' htile hi
    · change j < (update b.points tile _ t).progress _ at hj
      by_cases heq : t = tile
      · subst heq
        rw [update_self] at hj
        rcases Nat.lt_succ_iff_lt_or_eq.mp hj with hlt | rfl
        · obtain ⟨r, hr, hr'⟩ := h.complete hexists t ht j (by rw [hpoint]; exact hlt)
          exact ⟨r, mem_cons_of_mem _ hr, hr'⟩
        · exact ⟨_, mem_cons_self, rfl, rfl⟩
      · rw [update_of_ne heq] at hj
        obtain ⟨r, hr, hr'⟩ := h.complete hexists t ht j hj
        exact ⟨r, mem_cons_of_mem _ hr, hr'⟩
  · rw [reply_other hexists]
    refine h.step (rfl : _ = update b.points tile (.running (i + 1))) rfl (fun _ ht => ht) rfl rfl (fun j hj => ?_)
      fun hop => absurd hop hexists
    rw [hpoint] at hj
    exact lt_succ_of_lt hj

theorem Holds.reply {answer : Bool} (hexists : b.batchOp = .batchTileExists) (hreplied : b.Replied)
    (h : b.Holds b.existsResults) (hpoint : b.points tile = .running i)
    (hkey : (b.tileKeys tile)[i]? = some key) :
    (b.reply tile i key answer).Holds (b.reply tile i key answer).existsResults := by
  obtain ⟨hlength, hbytes⟩ := h
  obtain ⟨hi, hposition⟩ := getElem?_tileKeys hkey
  obtain ⟨hbound, _⟩ := List.getElem?_eq_some_iff.mp hposition
  rw [reply_exists hexists]
  refine ⟨(length_set ..).trans hlength, forall_mem_cons.mpr ⟨?_, fun r hr => ?_⟩⟩
  · exact getElem?_set_self (hlength ▸ hbound)
  · have hne : b.tileStart tile + i ≠ b.tileStart r.tile + r.i := by
      intro heq
      obtain ⟨hri, _⟩ := getElem?_tileKeys (hreplied.keyed r hr)
      obtain ⟨htile, hi'⟩ := tile_eq_of_position hi hri heq
      have hasked := hreplied.asked r hr
      rw [← htile, hpoint, ← hi'] at hasked
      exact lt_irrefl i hasked
    exact (getElem?_set_ne hne).trans (hbytes r hr)

theorem replied_exec (h : b.Replied) (futureId : ℕ) (stop : Bool) (outcome : Except String Bool) :
    (exec futureId stop b tile outcome).Replied := by
  have hstep : ∀ {b' : NativeBatch K} {point : TilePoint},
      b'.points = update b.points tile point → b'.replies = b.replies →
      b'.threw = b.threw → b'.batchOp = b.batchOp → b'.tileKeys = b.tileKeys →
      (∀ i, (b.points tile).Asked i → point.Asked i) →
      point.progress (b.tileKeys tile).length ≤ (b.points tile).progress (b.tileKeys tile).length →
      b'.Replied :=
    fun hpoints hreplies hthrew hop hkeys hasked hprogress =>
      h.step hpoints hreplies (fun t ht => hthrew ▸ ht) hop hkeys hasked fun _ _ => hprogress
  rw [exec]
  cases hpoint : b.points tile with
  | waiting =>
    exact hstep rfl rfl rfl rfl rfl (by rw [hpoint]; exact fun _ hi => hi.elim) (by rw [hpoint]; rfl)
  | running i =>
    dsimp only
    cases hkey : (b.tileKeys tile)[i]? with
    | none =>
      refine hstep rfl rfl rfl rfl rfl (fun _ _ => trivial) ?_
      rw [hpoint]
      exact getElem?_eq_none_iff.mp hkey
    | some key =>
      cases outcome with
      | ok answer => exact h.reply answer hpoint hkey
      | error error =>
        refine h.step rfl rfl (fun t ht hmem => ht (mem_cons_of_mem _ hmem)) rfl rfl
          (fun _ _ => ?_) fun _ ht => absurd mem_cons_self ht
        split_ifs <;> trivial
  | fetchSub | loadFailed =>
    refine hstep rfl rfl rfl rfl rfl (fun _ _ => ?_) ?_
    · split_ifs <;> trivial
    · rw [hpoint]
      split_ifs <;> rfl
  | assemble ok error =>
    dsimp only
    split_ifs
    · exact hstep rfl rfl rfl rfl rfl (fun _ _ => trivial) (by rw [hpoint]; rfl)
    · exact hstep rfl rfl rfl rfl rfl (fun _ _ => trivial) (by rw [hpoint]; rfl)
  | storeFailed | storeError | readError | push =>
    exact hstep rfl rfl rfl rfl rfl (fun _ _ => trivial) (by rw [hpoint]; rfl)
  | done => exact h
  | abandoned => exact h

theorem resultsKept_exec (hexists : b.batchOp = .batchTileExists) (h : b.ResultsKept)
    (hreplied : b.Replied) (hcounted : b.Counted) (hfailures : b.FailuresKnown)
    (hlt : tile < b.numTiles) (futureId : ℕ) (stop : Bool) (outcome : Except String Bool) :
    (exec futureId stop b tile outcome).ResultsKept := by
  rw [exec]
  cases hpoint : b.points tile with
  | waiting => exact h.step rfl rfl rfl rfl rfl rfl (by simp [hpoint]) (by simp)
  | running i =>
    have hbusy : ∀ t completion, b.points t ≠ .push completion := by
      intro t completion hpush
      have hzero := hcounted.zero_of_finishing (hfailures.lt_of_point (t := t) (by simp [hpush]))
        (by rw [hpush]; rfl)
      have hpos := hcounted.pos_of_unfinished hlt (by rw [hpoint]; rfl)
      omega
    have hnone : b.pushed = [] := by
      by_contra hpushed
      have hzero := hcounted.zero_of_pushed hpushed
      have hpos := hcounted.pos_of_unfinished hlt (by rw [hpoint]; rfl)
      omega
    dsimp only
    cases hkey : (b.tileKeys tile)[i]? with
    | none => exact h.step rfl rfl rfl rfl rfl rfl (by simp [hpoint]) (by simp)
    | some key =>
      cases outcome with
      | ok answer =>
        obtain ⟨hpoints, _, _, _, _, hpushed⟩ := reply_frame b tile i key answer
        refine ⟨fun _ _ => (h.stored hnone hbusy).reply hexists hreplied hpoint hkey,
          fun t completion hpush => ?_, fun completion hmem => ?_⟩
        · change update (b.reply tile i key answer).points tile _ t = _ at hpush
          rw [hpoints] at hpush
          by_cases heq : t = tile
          · rw [heq, update_self] at hpush
            cases hpush
          · rw [update_of_ne heq] at hpush
            exact absurd hpush (hbusy t completion)
        · change completion ∈ (b.reply tile i key answer).pushed at hmem
          rw [hpushed, hnone] at hmem
          cases hmem
      | error error =>
        refine h.step rfl rfl rfl rfl rfl rfl (by simp [hpoint]) fun _ => ?_
        split_ifs <;> simp
  | fetchSub | loadFailed =>
    refine h.step rfl rfl rfl rfl rfl rfl (by simp [hpoint]) fun _ => ?_
    split_ifs <;> simp
  | assemble ok error =>
    obtain ⟨hnone, honly⟩ := hcounted.only_finishing hlt (by rw [hpoint]; rfl)
    have hidle : ∀ t completion, b.points t ≠ .push completion := by
      intro t completion hpush
      have heq := honly t (hfailures.lt_of_point (by simp [hpush])) (by rw [hpush]; rfl)
      rw [heq, hpoint] at hpush
      cases hpush
    have hstored := h.stored hnone hidle
    dsimp only
    rw [if_pos hexists]
    refine ⟨fun _ hmoved => ?_, fun t completion hpush => ?_, fun completion hmem => ?_⟩
    · exact absurd (update_self ..) (hmoved tile _)
    · change update b.points tile _ t = _ at hpush
      by_cases heq : t = tile
      · rw [heq, update_self] at hpush
        cases hpush
        exact hstored
      · rw [update_of_ne heq] at hpush
        exact absurd hpush (hidle t completion)
    · change completion ∈ b.pushed at hmem
      rw [hnone] at hmem
      cases hmem
  | push completion =>
    have hpush := h.pushing tile completion hpoint
    refine ⟨fun hnone => ?_, fun t c hpush' => ?_, fun c hmem => ?_⟩
    · exact absurd hnone (append_ne_nil_of_right_ne_nil _ (cons_ne_nil _ _))
    · change update b.points tile _ t = _ at hpush'
      by_cases heq : t = tile
      · rw [heq, update_self] at hpush'
        cases hpush'
      · rw [update_of_ne heq] at hpush'
        exact h.pushing t c hpush'
    · rcases mem_append.mp hmem with hold | hnew
      · exact h.pushed c hold
      · rw [mem_singleton.mp hnew]
        exact hpush
  | storeFailed | storeError | readError =>
    exact h.step rfl rfl rfl rfl rfl rfl (by simp [hpoint]) (by simp)
  | done => exact h
  | abandoned => exact h

structure Signed (futureId : ℕ) (b : NativeBatch K) : Prop where
  pushing : ∀ t completion, b.points t = .push completion → completion.futureId = futureId
  pushed : ∀ completion ∈ b.pushed, completion.futureId = futureId

theorem signed_exec {futureId : ℕ} (h : b.Signed futureId) (stop : Bool)
    (outcome : Except String Bool) : (exec futureId stop b tile outcome).Signed futureId := by
  have hstep : ∀ {b' : NativeBatch K} {point : TilePoint},
      b'.points = update b.points tile point → b'.pushed = b.pushed →
      (∀ completion, point = .push completion → completion.futureId = futureId) →
      b'.Signed futureId := by
    intro b' point hpoints hpushed hpoint
    refine ⟨fun t completion hpush => ?_, hpushed ▸ h.pushed⟩
    rw [hpoints] at hpush
    by_cases heq : t = tile
    · rw [heq, update_self] at hpush
      exact hpoint completion hpush
    · rw [update_of_ne heq] at hpush
      exact h.pushing t completion hpush
  rw [exec]
  cases hpoint : b.points tile with
  | running i =>
    dsimp only
    cases (b.tileKeys tile)[i]? with
    | none => exact hstep rfl rfl (by simp)
    | some key =>
      cases outcome with
      | ok answer =>
        obtain ⟨hpoints, _, _, _, _, hpushed⟩ := reply_frame b tile i key answer
        refine hstep (?_ : _ = update b.points tile (.running (i + 1))) hpushed (by simp)
        rw [← hpoints]
        rfl
      | error error =>
        refine hstep rfl rfl fun completion hpush => ?_
        split_ifs at hpush
  | fetchSub | loadFailed =>
    refine hstep rfl rfl fun completion hpush => ?_
    split_ifs at hpush
  | assemble ok error =>
    dsimp only
    split_ifs
    · exact hstep rfl rfl fun completion hpush => by cases hpush; rfl
    · exact hstep rfl rfl fun completion hpush => by cases hpush; rfl
  | push completion =>
    have hmoved : (b.moveTo tile .done).Signed futureId := hstep rfl rfl (by simp)
    refine ⟨hmoved.pushing, fun c hmem => ?_⟩
    rcases mem_append.mp hmem with hold | hnew
    · exact h.pushed c hold
    · rw [mem_singleton.mp hnew]
      exact h.pushing tile completion hpoint
  | waiting | storeFailed | storeError | readError => exact hstep rfl rfl (by simp)
  | done => exact h
  | abandoned => exact h

structure Kept (numWorkers futureId : ℕ) (b : NativeBatch K) : Prop where
  prepared : b.Prepared numWorkers
  counted : b.Counted
  failures : b.FailuresKnown
  judged : b.Judged
  replied : b.Replied
  results : b.batchOp = .batchTileExists → b.ResultsKept
  signed : b.Signed futureId

theorem kept_prepareBatchOperation {numWorkers : ℕ} (hworkers : 0 < numWorkers) (futureId : ℕ)
    (batchOp : NativeOp) {keys : List K} (h : keys ≠ []) :
    Kept numWorkers futureId (prepareBatchOperation numWorkers batchOp keys) := by
  have hprepared := prepared_prepareBatchOperation numWorkers batchOp h
  have hpos : 0 < tileCount numWorkers keys.length := hprepared.tiles_pos hworkers
  refine ⟨hprepared, ⟨?_, ?_⟩, ?_, ?_, ?_, fun hexists => ?_, ?_⟩
  · change tileCount numWorkers keys.length = (range _).countP fun _ => true
    rw [countP_true, length_range]
    rfl
  · change 0 + (range _).countP (fun _ => false) = if tileCount numWorkers keys.length = 0 then 1 else 0
    rw [countP_false, if_neg (by omega)]
    rfl
  · exact ⟨fun _ _ => rfl, fun _ ht => (not_mem_nil ht).elim,
      fun _ ht => (not_mem_nil ht).elim, fun hfailed => nomatch hfailed⟩
  · exact ⟨fun _ => trivial, fun _ hc => (not_mem_nil hc).elim⟩
  · exact ⟨fun _ hr => (not_mem_nil hr).elim, fun _ hr => (not_mem_nil hr).elim,
      fun _ hr => (not_mem_nil hr).elim, fun _ _ _ _ hi => absurd hi (not_lt_zero _)⟩
  · refine ⟨fun _ _ => ⟨?_, fun _ hr => (not_mem_nil hr).elim⟩, fun _ _ hpush => (nomatch hpush),
      fun _ hc => (not_mem_nil hc).elim⟩
    change (if batchOp = .batchTileExists then replicate keys.length 0 else []).length = keys.length
    rw [if_pos (show batchOp = .batchTileExists from hexists), length_replicate]
  · exact ⟨fun _ _ hpush => (nomatch hpush), fun _ hc => (not_mem_nil hc).elim⟩

variable {numWorkers futureId : ℕ}

theorem Kept.exec (h : b.Kept numWorkers futureId) (hlt : tile < b.numTiles) (stop : Bool)
    (outcome : Except String Bool) :
    (NativeBatch.exec futureId stop b tile outcome).Kept numWorkers futureId where
  prepared := h.prepared.exec futureId stop tile outcome
  counted := counted_exec h.counted hlt futureId stop outcome
  failures := failuresKnown_exec h.failures h.judged hlt futureId stop outcome
  judged := judged_exec h.judged h.failures h.counted hlt futureId stop outcome
  replied := replied_exec h.replied futureId stop outcome
  results hexists := by
    rw [(exec_frame futureId stop b tile outcome).1] at hexists
    exact resultsKept_exec hexists (h.results hexists) h.replied h.counted h.failures hlt futureId
      stop outcome
  signed := signed_exec h.signed stop outcome

theorem Kept.aligned (h : b.Kept numWorkers futureId) (hworkers : 0 < numWorkers)
    (hexists : b.batchOp = .batchTileExists) {completion : BatchCompletion}
    (hmem : completion ∈ b.pushed) (hok : completion.ok = true) (hkey : b.keys[i]? = some key) :
    ∃ r ∈ b.replies, b.tileStart r.tile + r.i = i ∧ r.key = key ∧
      completion.resultBytes[i]? = some r.answer.toNat ∧
        ∀ r' ∈ b.replies, b.tileStart r'.tile + r'.i = i → r' = r := by
  obtain ⟨hi, _⟩ := List.getElem?_eq_some_iff.mp hkey
  obtain ⟨tile, ⟨hlt, hstart, hend⟩, _⟩ := h.prepared.partition hworkers hi
  have hzero := h.counted.zero_of_pushed (ne_nil_of_mem hmem)
  have hfinished := h.counted.finished_of_zero hzero hlt
  have hthrew : tile ∉ b.threw := by
    rw [(h.judged.pushed completion hmem).mp hok]
    exact not_mem_nil
  have hlength : i - b.tileStart tile < (b.tileKeys tile).length := by
    rw [tileKeys, length_take, length_drop]
    exact lt_min (by omega) (by omega)
  have hprogress : (b.points tile).progress (b.tileKeys tile).length = (b.tileKeys tile).length := by
    cases hpoint : b.points tile with
    | waiting | running =>
      rw [hpoint] at hfinished
      cases hfinished
    | _ => rfl
  obtain ⟨r, hr, rfl, hri⟩ := h.replied.complete hexists tile hthrew _ (hprogress ▸ hlength)
  have hposition : b.tileStart r.tile + r.i = i := by omega
  obtain ⟨hsize, hrkey⟩ := getElem?_tileKeys (h.replied.keyed r hr)
  rw [hposition, hkey] at hrkey
  refine ⟨r, hr, hposition, (Option.some.inj hrkey).symm, ?_, fun r' hr' hposition' => ?_⟩
  · rw [← hposition]
    exact ((h.results hexists).pushed completion hmem).2 r hr
  · obtain ⟨hsize', _⟩ := getElem?_tileKeys (h.replied.keyed r' hr')
    obtain ⟨htile, hi'⟩ := tile_eq_of_position hsize' hsize (hposition'.trans hposition.symm)
    exact h.replied.unique r' hr' r hr htile hi'

end NativeBatch

end LMCache
