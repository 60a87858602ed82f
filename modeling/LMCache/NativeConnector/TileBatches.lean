import LMCache.Foundations.Execution
import LMCache.Foundations.Lists
import Mathlib.Data.List.Nodup
import Mathlib.Tactic.Linarith

namespace LMCache

open Function List

inductive NativeOp where
  | batchTileGet
  | batchTileSet
  | batchTileExists
deriving DecidableEq

structure BatchCompletion where
  futureId : ℕ
  ok : Bool
  error : String
  resultBytes : List ℕ
deriving DecidableEq

inductive TilePoint where
  | waiting
  | running (i : ℕ)
  | storeFailed (error : String)
  | storeError (error : String)
  | fetchSub
  | loadFailed
  | readError
  | assemble (ok : Bool) (error : String)
  | push (completion : BatchCompletion)
  | done
  | abandoned
deriving DecidableEq

structure TileReply (K : Type) where
  tile : ℕ
  i : ℕ
  key : K
  answer : Bool

structure NativeBatch (K : Type) where
  batchOp : NativeOp
  keys : List K
  numTiles : ℕ
  tileSize : ℕ
  remainingTiles : ℕ
  anyFailed : Bool
  firstError : String
  existsResults : List ℕ
  points : ℕ → TilePoint
  replies : List (TileReply K)
  threw : List ℕ
  pushed : List BatchCompletion

namespace TilePoint

def unfinished : TilePoint → Bool
  | waiting | running _ | storeFailed _ | storeError _ | fetchSub | abandoned => true
  | _ => false

def finishing : TilePoint → Bool
  | loadFailed | readError | assemble _ _ | push _ => true
  | _ => false

def pushes : TilePoint → List BatchCompletion
  | push completion => [completion]
  | _ => []

def Knows (threw : List ℕ) : TilePoint → Prop
  | storeFailed _ => threw ≠ []
  | readError => threw ≠ []
  | assemble ok _ => ok = true ↔ threw = []
  | push completion => completion.ok = true ↔ threw = []
  | _ => True

def progress (numItems : ℕ) : TilePoint → ℕ
  | waiting => 0
  | running i => i
  | _ => numItems

def Asked (i : ℕ) : TilePoint → Prop
  | waiting => False
  | running j => i < j
  | _ => True

end TilePoint

def tileCount (numWorkers numItems : ℕ) : ℕ := min numWorkers numItems

def tileWidth (numItems numTiles : ℕ) : ℕ := (numItems + numTiles - 1) / numTiles

namespace NativeBatch

variable {K : Type} (b : NativeBatch K)

def tileStart (tile : ℕ) : ℕ := tile * b.tileSize

def tileEnd (tile : ℕ) : ℕ := min (b.tileStart tile + b.tileSize) b.keys.length

def tileKeys (tile : ℕ) : List K :=
  (b.keys.drop (b.tileStart tile)).take (b.tileEnd tile - b.tileStart tile)

def prepareBatchOperation (numWorkers : ℕ) (batchOp : NativeOp) (keys : List K) : NativeBatch K where
  batchOp := batchOp
  keys := keys
  numTiles := tileCount numWorkers keys.length
  tileSize := tileWidth keys.length (tileCount numWorkers keys.length)
  remainingTiles := tileCount numWorkers keys.length
  anyFailed := false
  firstError := ""
  existsResults := if batchOp = .batchTileExists then replicate keys.length 0 else []
  points := fun _ => .waiting
  replies := []
  threw := []
  pushed := []

def moveTo (tile : ℕ) (point : TilePoint) : NativeBatch K :=
  { b with points := update b.points tile point }

def reply (tile i : ℕ) (key : K) (answer : Bool) : NativeBatch K :=
  if b.batchOp = .batchTileExists then
    { b with
      existsResults := b.existsResults.set (b.tileStart tile + i) answer.toNat
      replies := ⟨tile, i, key, answer⟩ :: b.replies }
  else b

def exec (futureId : ℕ) (stop : Bool) (b : NativeBatch K) (tile : ℕ)
    (outcome : Except String Bool) : NativeBatch K :=
  match b.points tile with
  | .waiting => b.moveTo tile (.running 0)
  | .running i =>
      match (b.tileKeys tile)[i]? with
      | none => b.moveTo tile .fetchSub
      | some key =>
          match outcome with
          | .ok answer => (b.reply tile i key answer).moveTo tile (.running (i + 1))
          | .error error =>
              { b with threw := tile :: b.threw }.moveTo tile
                (if stop then .abandoned else .storeFailed error)
  | .storeFailed error => { b with anyFailed := true }.moveTo tile (.storeError error)
  | .storeError error =>
      { b with firstError := if b.firstError = "" then error else b.firstError }.moveTo tile .fetchSub
  | .fetchSub =>
      { b with remainingTiles := b.remainingTiles - 1 }.moveTo tile
        (if b.remainingTiles - 1 = 0 then .loadFailed else .done)
  | .loadFailed => b.moveTo tile (if b.anyFailed then .readError else .assemble true "")
  | .readError => b.moveTo tile (.assemble false b.firstError)
  | .assemble ok error =>
      if b.batchOp = .batchTileExists then
        { b with existsResults := [] }.moveTo tile (.push ⟨futureId, ok, error, b.existsResults⟩)
      else b.moveTo tile (.push ⟨futureId, ok, error, []⟩)
  | .push completion => { b with pushed := b.pushed ++ [completion] }.moveTo tile .done
  | .done => b
  | .abandoned => b

variable {b b' : NativeBatch K} {tile : ℕ}

structure Prepared (numWorkers : ℕ) (b : NativeBatch K) : Prop where
  nonempty : b.keys ≠ []
  numTiles : b.numTiles = tileCount numWorkers b.keys.length
  tileSize : b.tileSize = tileWidth b.keys.length b.numTiles

theorem prepared_prepareBatchOperation (numWorkers : ℕ) (batchOp : NativeOp) {keys : List K}
    (h : keys ≠ []) : Prepared numWorkers (prepareBatchOperation numWorkers batchOp keys) :=
  ⟨h, rfl, rfl⟩

variable {numWorkers : ℕ}

theorem Prepared.tiles_pos (h : Prepared numWorkers b) (hworkers : 0 < numWorkers) :
    0 < b.numTiles := by
  have hlength := length_pos_iff.mpr h.nonempty
  rw [h.numTiles, tileCount]
  exact lt_min hworkers hlength

theorem Prepared.covers (h : Prepared numWorkers b) (hworkers : 0 < numWorkers) :
    b.keys.length ≤ b.numTiles * b.tileSize := by
  have hpos := h.tiles_pos hworkers
  have hdiv := Nat.div_add_mod (b.keys.length + b.numTiles - 1) b.numTiles
  have hmod := Nat.mod_lt (b.keys.length + b.numTiles - 1) hpos
  rw [h.tileSize, tileWidth]
  omega

theorem Prepared.partition (h : Prepared numWorkers b) (hworkers : 0 < numWorkers) {i : ℕ}
    (hi : i < b.keys.length) :
    ∃! tile, tile < b.numTiles ∧ b.tileStart tile ≤ i ∧ i < b.tileEnd tile := by
  have hcovers := h.covers hworkers
  have hsize : 0 < b.tileSize := by
    by_contra hzero
    rw [Nat.eq_zero_of_not_pos hzero] at hcovers
    omega
  refine ⟨i / b.tileSize, ⟨?_, ?_, ?_⟩, fun tile htile => ?_⟩
  · rw [Nat.div_lt_iff_lt_mul hsize]
    omega
  · exact Nat.div_mul_le_self i b.tileSize
  · refine lt_min ?_ hi
    have hlt := Nat.lt_div_mul_add hsize (a := i)
    exact hlt
  · obtain ⟨_, hstart, hend⟩ := htile
    have hend' : i < b.tileStart tile + b.tileSize := lt_of_lt_of_le hend (Nat.min_le_left _ _)
    rw [tileStart] at hstart hend'
    rw [Eq.comm, Nat.div_eq_iff hsize]
    constructor
    · exact hstart
    · omega

theorem countP_pos_of_point {points : ℕ → TilePoint} {p : TilePoint → Bool} {n tile : ℕ} (h : tile < n)
    (hpoint : p (points tile) = true) : 0 < (range n).countP fun t => p (points t) :=
  countP_pos_iff.mpr ⟨tile, mem_range.mpr h, hpoint⟩

def unfinishedTiles (b : NativeBatch K) : ℕ :=
  (range b.numTiles).countP fun t => (b.points t).unfinished

def finishingTiles (b : NativeBatch K) : ℕ :=
  (range b.numTiles).countP fun t => (b.points t).finishing

structure Counted (b : NativeBatch K) : Prop where
  remaining : b.remainingTiles = b.unfinishedTiles
  last : b.pushed.length + b.finishingTiles = if b.remainingTiles = 0 then 1 else 0

theorem Counted.pos_of_unfinished (h : b.Counted) (hlt : tile < b.numTiles)
    (hpoint : (b.points tile).unfinished = true) : 0 < b.remainingTiles := by
  rw [h.remaining]
  exact countP_pos_of_point hlt hpoint

theorem Counted.zero_of_finishing (h : b.Counted) (hlt : tile < b.numTiles)
    (hpoint : (b.points tile).finishing = true) : b.remainingTiles = 0 := by
  have hpos : 0 < b.finishingTiles := countP_pos_of_point hlt hpoint
  have hlast := h.last
  split_ifs at hlast with hzero
  · exact hzero
  · omega

theorem Counted.zero_of_pushed (h : b.Counted) (hpushed : b.pushed ≠ []) : b.remainingTiles = 0 := by
  have hpos := length_pos_iff.mpr hpushed
  have hlast := h.last
  split_ifs at hlast with hzero
  · exact hzero
  · omega

variable {point : TilePoint}

theorem unfinishedTiles_update (b b' : NativeBatch K)
    (hpoints : b'.points = update b.points tile point) (hnum : b'.numTiles = b.numTiles)
    (hlt : tile < b.numTiles) :
    b'.unfinishedTiles + (b.points tile).unfinished.toNat = b.unfinishedTiles + point.unfinished.toNat := by
  rw [unfinishedTiles, unfinishedTiles, hpoints, hnum]
  exact countP_range_update b.points TilePoint.unfinished hlt point

theorem finishingTiles_update (b b' : NativeBatch K)
    (hpoints : b'.points = update b.points tile point) (hnum : b'.numTiles = b.numTiles)
    (hlt : tile < b.numTiles) :
    b'.finishingTiles + (b.points tile).finishing.toNat = b.finishingTiles + point.finishing.toNat := by
  rw [finishingTiles, finishingTiles, hpoints, hnum]
  exact countP_range_update b.points TilePoint.finishing hlt point

theorem Counted.step (h : b.Counted) (hlt : tile < b.numTiles)
    (hpoints : b'.points = update b.points tile point) (hnum : b'.numTiles = b.numTiles)
    (hremaining : b'.remainingTiles = b.remainingTiles)
    (hunfinished : point.unfinished = (b.points tile).unfinished)
    (hlast : b'.pushed.length + point.finishing.toNat =
      b.pushed.length + (b.points tile).finishing.toNat) : b'.Counted := by
  have hcount := unfinishedTiles_update b b' hpoints hnum hlt
  have hfinishing := finishingTiles_update b b' hpoints hnum hlt
  rw [hunfinished] at hcount
  refine ⟨?_, ?_⟩
  · rw [hremaining, h.remaining]
    omega
  · rw [hremaining, ← h.last]
    omega

theorem Counted.fetchSub (h : b.Counted) (hlt : tile < b.numTiles)
    (hpoint : b.points tile = .fetchSub) :
    Counted ({ b with remainingTiles := b.remainingTiles - 1 }.moveTo tile
      (if b.remainingTiles - 1 = 0 then .loadFailed else .done)) := by
  have hpos := h.pos_of_unfinished hlt (by rw [hpoint]; rfl)
  have hlast := h.last
  rw [if_neg (by omega)] at hlast
  have hremaining := h.remaining
  have hover : (if b.remainingTiles - 1 = 0 then TilePoint.loadFailed else .done).unfinished = false := by
    split <;> rfl
  have hdecides : (if b.remainingTiles - 1 = 0 then TilePoint.loadFailed else .done).finishing.toNat =
      if b.remainingTiles - 1 = 0 then 1 else 0 := by
    split <;> rfl
  generalize (if b.remainingTiles - 1 = 0 then TilePoint.loadFailed else .done) = point at *
  have hcount := unfinishedTiles_update b
    ({ b with remainingTiles := b.remainingTiles - 1 }.moveTo tile point) rfl rfl hlt
  have hfinishing := finishingTiles_update b
    ({ b with remainingTiles := b.remainingTiles - 1 }.moveTo tile point) rfl rfl hlt
  rw [hpoint, hover] at hcount
  rw [hpoint, hdecides] at hfinishing
  simp only [TilePoint.unfinished, TilePoint.finishing, Bool.toNat_true, Bool.toNat_false] at hcount hfinishing
  refine ⟨?_, ?_⟩
  · change b.remainingTiles - 1 = _
    omega
  · change b.pushed.length + _ = if b.remainingTiles - 1 = 0 then 1 else 0
    omega

theorem reply_frame (b : NativeBatch K) (tile i : ℕ) (key : K) (answer : Bool) :
    (b.reply tile i key answer).points = b.points ∧
      (b.reply tile i key answer).numTiles = b.numTiles ∧
      (b.reply tile i key answer).remainingTiles = b.remainingTiles ∧
      (b.reply tile i key answer).anyFailed = b.anyFailed ∧
      (b.reply tile i key answer).threw = b.threw ∧
      (b.reply tile i key answer).pushed = b.pushed := by
  rw [reply]
  split_ifs <;> exact ⟨rfl, rfl, rfl, rfl, rfl, rfl⟩

theorem counted_exec (h : b.Counted) (hlt : tile < b.numTiles) (futureId : ℕ) (stop : Bool)
    (outcome : Except String Bool) : (exec futureId stop b tile outcome).Counted := by
  have hstep : ∀ {b' : NativeBatch K} {point : TilePoint},
      b'.points = update b.points tile point → b'.numTiles = b.numTiles →
      b'.remainingTiles = b.remainingTiles → point.unfinished = (b.points tile).unfinished →
      b'.pushed.length + point.finishing.toNat =
        b.pushed.length + (b.points tile).finishing.toNat → b'.Counted :=
    fun hpoints hnum hremaining hunfinished hlast =>
      h.step hlt hpoints hnum hremaining hunfinished hlast
  rw [exec]
  cases hpoint : b.points tile with
  | waiting | storeFailed error | storeError error | readError =>
    exact hstep rfl rfl rfl (by rw [hpoint]; rfl) (by rw [hpoint]; rfl)
  | running i =>
    dsimp only
    cases (b.tileKeys tile)[i]? with
    | none => exact hstep rfl rfl rfl (by rw [hpoint]; rfl) (by rw [hpoint]; rfl)
    | some key =>
      cases outcome with
      | ok answer =>
        obtain ⟨hpoints, hnum, hremaining, _, _, hpushed⟩ := reply_frame b tile i key answer
        refine hstep (?_ : _ = update b.points tile (.running (i + 1))) hnum hremaining
          (by rw [hpoint]; rfl) ?_
        · rw [← hpoints]
          rfl
        · change (b.reply tile i key answer).pushed.length + _ = _
          rw [hpushed, hpoint]
          rfl
      | error error =>
        dsimp only
        split_ifs
        · exact hstep rfl rfl rfl (by rw [hpoint]; rfl) (by rw [hpoint]; rfl)
        · exact hstep rfl rfl rfl (by rw [hpoint]; rfl) (by rw [hpoint]; rfl)
  | fetchSub => exact h.fetchSub hlt hpoint
  | loadFailed | assemble ok error =>
    dsimp only
    split_ifs
    · exact hstep rfl rfl rfl (by rw [hpoint]; rfl) (by rw [hpoint]; rfl)
    · exact hstep rfl rfl rfl (by rw [hpoint]; rfl) (by rw [hpoint]; rfl)
  | push completion =>
    refine hstep (rfl : _ = update b.points tile .done) rfl rfl (by rw [hpoint]; rfl) ?_
    change (b.pushed ++ [completion]).length + 0 = _
    rw [hpoint, length_append]
    rfl
  | done => exact h
  | abandoned => exact h

theorem Counted.finished_of_zero (h : b.Counted) (hzero : b.remainingTiles = 0) {t : ℕ}
    (hlt : t < b.numTiles) : (b.points t).unfinished = false := by
  by_contra hunfinished
  have hpos := h.pos_of_unfinished hlt (Bool.not_eq_false _ ▸ hunfinished)
  omega

structure FailuresKnown (b : NativeBatch K) : Prop where
  outside : ∀ t, b.numTiles ≤ t → b.points t = .waiting
  threwTile : ∀ t ∈ b.threw, t < b.numTiles
  recorded : ∀ t ∈ b.threw,
    b.anyFailed = true ∨ (∃ error, b.points t = .storeFailed error) ∨ b.points t = .abandoned
  thrown : b.anyFailed = true → b.threw ≠ []

structure Judged (b : NativeBatch K) : Prop where
  points : ∀ t, (b.points t).Knows b.threw
  pushed : ∀ completion ∈ b.pushed, (completion.ok = true ↔ b.threw = [])

theorem FailuresKnown.lt_of_point (h : b.FailuresKnown) {t : ℕ} (hpoint : b.points t ≠ .waiting) :
    t < b.numTiles := by
  by_contra hle
  exact hpoint (h.outside t (Nat.not_lt.mp hle))

theorem FailuresKnown.failed_iff (h : b.FailuresKnown) (hcounted : b.Counted)
    (hzero : b.remainingTiles = 0) : b.anyFailed = true ↔ b.threw ≠ [] := by
  refine ⟨h.thrown, fun hne => ?_⟩
  obtain ⟨t, ht⟩ := exists_mem_of_ne_nil _ hne
  have hfinished := hcounted.finished_of_zero hzero (h.threwTile t ht)
  rcases h.recorded t ht with hfailed | ⟨error, hpoint⟩ | hpoint
  · exact hfailed
  · rw [hpoint] at hfinished
    cases hfinished
  · rw [hpoint] at hfinished
    cases hfinished

theorem FailuresKnown.step (h : b.FailuresKnown) (hlt : tile < b.numTiles)
    (hpoints : b'.points = update b.points tile point) (hnum : b'.numTiles = b.numTiles)
    (hthrew : b'.threw = b.threw) (hfailed : b'.anyFailed = b.anyFailed)
    (hstored : ∀ error, b.points tile ≠ .storeFailed error)
    (habandoned : b.points tile ≠ .abandoned) : b'.FailuresKnown := by
  refine ⟨fun t hle => ?_, ?_, fun t ht => ?_, ?_⟩
  · rw [hnum] at hle
    rw [hpoints, update_of_ne (by omega)]
    exact h.outside t hle
  · rw [hthrew, hnum]
    exact h.threwTile
  · rw [hthrew] at ht
    rw [hfailed, hpoints]
    by_cases heq : t = tile
    · subst heq
      rcases h.recorded t ht with hany | ⟨error, hpoint⟩ | hpoint
      · exact .inl hany
      · exact absurd hpoint (hstored error)
      · exact absurd hpoint habandoned
    · rw [update_of_ne heq]
      exact h.recorded t ht
  · rw [hthrew, hfailed]
    exact h.thrown

theorem Judged.step (h : b.Judged) (hpoints : b'.points = update b.points tile point)
    (hthrew : b'.threw = b.threw) (hpushed : b'.pushed = b.pushed) (hknows : point.Knows b.threw) :
    b'.Judged := by
  refine ⟨fun t => ?_, ?_⟩
  · rw [hpoints, hthrew]
    by_cases heq : t = tile
    · subst heq
      rw [update_self]
      exact hknows
    · rw [update_of_ne heq]
      exact h.points t
  · rw [hpushed, hthrew]
    exact h.pushed

theorem failuresKnown_exec (h : b.FailuresKnown) (hjudged : b.Judged) (hlt : tile < b.numTiles)
    (futureId : ℕ) (stop : Bool) (outcome : Except String Bool) :
    (exec futureId stop b tile outcome).FailuresKnown := by
  have hstep : ∀ {b' : NativeBatch K} {point : TilePoint},
      b'.points = update b.points tile point → b'.numTiles = b.numTiles →
      b'.threw = b.threw → b'.anyFailed = b.anyFailed →
      (∀ error, b.points tile ≠ .storeFailed error) → b.points tile ≠ .abandoned → b'.FailuresKnown :=
    fun hpoints hnum hthrew hfailed hstored habandoned =>
      h.step hlt hpoints hnum hthrew hfailed hstored habandoned
  rw [exec]
  cases hpoint : b.points tile with
  | waiting | storeError error | fetchSub | loadFailed | readError | push completion =>
    exact hstep rfl rfl rfl rfl (by simp [hpoint]) (by simp [hpoint])
  | running i =>
    dsimp only
    cases (b.tileKeys tile)[i]? with
    | none => exact hstep rfl rfl rfl rfl (by simp [hpoint]) (by simp [hpoint])
    | some key =>
      cases outcome with
      | ok answer =>
        obtain ⟨hpoints, hnum, _, hfailed, hthrew, _⟩ := reply_frame b tile i key answer
        refine hstep (?_ : _ = update b.points tile (.running (i + 1))) hnum hthrew hfailed
          (by simp [hpoint]) (by simp [hpoint])
        rw [← hpoints]
        rfl
      | error error =>
        dsimp only
        refine ⟨fun t hle => ?_, ?_, ?_, fun _ => cons_ne_nil _ _⟩
        · change b.numTiles ≤ t at hle
          exact (update_of_ne (by omega) _ _).trans (h.outside t hle)
        · exact forall_mem_cons.mpr ⟨hlt, h.threwTile⟩
        · refine forall_mem_cons.mpr ⟨?_, fun t ht => ?_⟩
          · refine .inr ?_
            change (∃ e, update b.points tile _ tile = _) ∨ update b.points tile _ tile = _
            rw [update_self]
            split_ifs
            · exact .inr rfl
            · exact .inl ⟨error, rfl⟩
          · change b.anyFailed = true ∨ (∃ e, update b.points tile _ t = _) ∨
              update b.points tile _ t = _
            by_cases heq : t = tile
            · subst heq
              rcases h.recorded t ht with hany | ⟨e, hstored⟩ | habandoned
              · exact .inl hany
              · exact absurd (hpoint.symm.trans hstored) (by simp)
              · exact absurd (hpoint.symm.trans habandoned) (by simp)
            · rw [update_of_ne heq]
              exact h.recorded t ht
  | storeFailed error =>
    have hknows := hjudged.points tile
    rw [hpoint] at hknows
    refine ⟨fun t hle => ?_, h.threwTile, fun _ _ => .inl rfl, fun _ => hknows⟩
    change b.numTiles ≤ t at hle
    exact (update_of_ne (by omega) _ _).trans (h.outside t hle)
  | assemble ok error =>
    dsimp only
    split_ifs
    · exact hstep rfl rfl rfl rfl (by simp [hpoint]) (by simp [hpoint])
    · exact hstep rfl rfl rfl rfl (by simp [hpoint]) (by simp [hpoint])
  | done => exact h
  | abandoned => exact h

theorem judged_exec (h : b.Judged) (hfailures : b.FailuresKnown) (hcounted : b.Counted)
    (hlt : tile < b.numTiles) (futureId : ℕ) (stop : Bool) (outcome : Except String Bool) :
    (exec futureId stop b tile outcome).Judged := by
  have hknows := h.points tile
  rw [exec]
  cases hpoint : b.points tile with
  | waiting => exact h.step rfl rfl rfl trivial
  | running i =>
    dsimp only
    cases (b.tileKeys tile)[i]? with
    | none => exact h.step rfl rfl rfl trivial
    | some key =>
      cases outcome with
      | ok answer =>
        obtain ⟨hpoints, _, _, _, hthrew, hpushed⟩ := reply_frame b tile i key answer
        refine h.step (?_ : _ = update b.points tile (.running (i + 1))) hthrew hpushed trivial
        rw [← hpoints]
        rfl
      | error error =>
        have hpos := hcounted.pos_of_unfinished hlt (by rw [hpoint]; rfl)
        refine ⟨fun t => ?_, fun completion hmem => ?_⟩
        · change (update b.points tile _ t).Knows (tile :: b.threw)
          by_cases heq : t = tile
          · rw [heq, update_self]
            split_ifs
            · trivial
            · exact cons_ne_nil _ _
          · rw [update_of_ne heq]
            have hbusy : (b.points t).finishing = false := by
              by_contra hfinishing
              rw [Bool.not_eq_false] at hfinishing
              have hzero := hcounted.zero_of_finishing (hfailures.lt_of_point
                (by rintro hwaiting; rw [hwaiting] at hfinishing; cases hfinishing)) hfinishing
              omega
            cases hother : b.points t with
            | storeFailed => exact cons_ne_nil _ _
            | readError | assemble | push =>
              rw [hother] at hbusy
              cases hbusy
            | _ => trivial
        · have hzero := hcounted.zero_of_pushed (ne_nil_of_mem hmem)
          omega
  | storeFailed error => exact h.step rfl rfl rfl trivial
  | storeError error => exact h.step rfl rfl rfl trivial
  | fetchSub =>
    refine h.step rfl rfl rfl ?_
    split_ifs <;> trivial
  | loadFailed =>
    have hzero := hcounted.zero_of_finishing hlt (by rw [hpoint]; rfl)
    have hfailed := hfailures.failed_iff hcounted hzero
    refine h.step rfl rfl rfl ?_
    split_ifs with hany
    · exact hfailed.mp hany
    · exact iff_of_true rfl (not_not.mp (mt hfailed.mpr hany))
  | readError =>
    rw [hpoint] at hknows
    exact h.step rfl rfl rfl (iff_of_false Bool.false_ne_true hknows)
  | assemble ok error =>
    rw [hpoint] at hknows
    dsimp only
    split_ifs
    · exact h.step rfl rfl rfl hknows
    · exact h.step rfl rfl rfl hknows
  | push completion =>
    rw [hpoint] at hknows
    have hmoved : (b.moveTo tile .done).Judged := h.step rfl rfl rfl trivial
    refine ⟨hmoved.points, fun c hmem => ?_⟩
    rcases mem_append.mp hmem with hold | hnew
    · exact h.pushed c hold
    · rw [mem_singleton.mp hnew]
      exact hknows
  | done => exact h
  | abandoned => exact h

theorem Counted.only_finishing (h : b.Counted) (hlt : tile < b.numTiles)
    (hpoint : (b.points tile).finishing = true) :
    b.pushed = [] ∧ ∀ t < b.numTiles, (b.points t).finishing = true → t = tile := by
  have hlast := h.last
  rw [if_pos (h.zero_of_finishing hlt hpoint)] at hlast
  have hcount := finishingTiles_update b (b.moveTo tile .done) rfl rfl hlt
  rw [hpoint] at hcount
  simp only [TilePoint.finishing, Bool.toNat_true, Bool.toNat_false] at hcount
  refine ⟨length_eq_zero_iff.mp (by omega), fun t ht hother => ?_⟩
  by_contra hne
  have hpos : 0 < (b.moveTo tile .done).finishingTiles := by
    refine countP_pos_of_point ht ?_
    change (update b.points tile _ t).finishing = true
    rw [update_of_ne hne]
    exact hother
  omega

theorem exec_frame (futureId : ℕ) (stop : Bool) (b : NativeBatch K) (tile : ℕ)
    (outcome : Except String Bool) :
    (exec futureId stop b tile outcome).batchOp = b.batchOp ∧
      (exec futureId stop b tile outcome).keys = b.keys ∧
      (exec futureId stop b tile outcome).numTiles = b.numTiles ∧
      (exec futureId stop b tile outcome).tileSize = b.tileSize := by
  rw [exec]
  cases b.points tile with
  | running i =>
    dsimp only
    cases (b.tileKeys tile)[i]? with
    | none => exact ⟨rfl, rfl, rfl, rfl⟩
    | some key =>
      cases outcome with
      | ok answer =>
        change (b.reply tile i key answer).batchOp = _ ∧ (b.reply tile i key answer).keys = _ ∧
          (b.reply tile i key answer).numTiles = _ ∧ (b.reply tile i key answer).tileSize = _
        rw [reply]
        split_ifs <;> exact ⟨rfl, rfl, rfl, rfl⟩
      | error error => exact ⟨rfl, rfl, rfl, rfl⟩
  | assemble ok error =>
    dsimp only
    split_ifs <;> exact ⟨rfl, rfl, rfl, rfl⟩
  | _ => exact ⟨rfl, rfl, rfl, rfl⟩

theorem Prepared.exec (h : Prepared numWorkers b) (futureId : ℕ) (stop : Bool) (tile : ℕ)
    (outcome : Except String Bool) :
    Prepared numWorkers (exec futureId stop b tile outcome) := by
  obtain ⟨_, hkeys, hnum, hsize⟩ := exec_frame futureId stop b tile outcome
  refine ⟨?_, ?_, ?_⟩
  · rw [hkeys]
    exact h.nonempty
  · rw [hnum, hkeys]
    exact h.numTiles
  · rw [hsize, hkeys, hnum]
    exact h.tileSize

theorem pushed_exec (futureId : ℕ) (stop : Bool) (b : NativeBatch K) (tile : ℕ)
    (outcome : Except String Bool) :
    (exec futureId stop b tile outcome).pushed = b.pushed ++ (b.points tile).pushes := by
  rw [exec]
  cases b.points tile with
  | push completion => rfl
  | running i =>
    refine Eq.trans ?_ (append_nil _).symm
    dsimp only
    cases (b.tileKeys tile)[i]? with
    | none => rfl
    | some key =>
      cases outcome with
      | ok answer => exact (reply_frame b tile i key answer).2.2.2.2.2
      | error error => rfl
  | assemble ok error =>
    refine Eq.trans ?_ (append_nil _).symm
    dsimp only
    split_ifs <;> rfl
  | _ => exact (append_nil _).symm

end NativeBatch

end LMCache
