import LMCache.NativeConnector.BatchResults

namespace LMCache

open Function List

structure ConnectorConfig where
  numWorkers : ℕ
  workers_pos : 0 < numWorkers

inductive WorkerState where
  | idle
  | busy (futureId tile : ℕ)
  | exited
deriving DecidableEq

-- a tile of a request is named by the future id of its batch and its index; enqueued has the next tile
-- of each submission
structure NativeConnector (K : Type) where
  nextFutureId : ℕ
  batches : ℕ → Option (NativeBatch K)
  enqueued : ℕ → ℕ
  requests : List (ℕ × ℕ)
  workers : ℕ → WorkerState
  stop : Bool
  completions : List BatchCompletion

inductive ConnectorEvent (K : Type) where
  | submit (batchOp : NativeOp) (keys : List K)
  | enqueueRequest (futureId : ℕ)
  | take (worker : ℕ)
  | work (worker : ℕ) (outcome : Except String Bool)
  | close

namespace NativeConnector

variable {K : Type}

def start : NativeConnector K := ⟨1, fun _ => none, fun _ => 0, [], fun _ => .idle, false, []⟩

variable (c : NativeConnector K)

def setBatch (futureId : ℕ) (b : NativeBatch K) : NativeConnector K :=
  { c with batches := update c.batches futureId (some b) }

def setWorker (worker : ℕ) (state : WorkerState) : NativeConnector K :=
  { c with workers := update c.workers worker state }

variable (cfg : ConnectorConfig)

def submit (c : NativeConnector K) (batchOp : NativeOp) (keys : List K) : NativeConnector K :=
  if keys.isEmpty then c
  else
    { c with nextFutureId := c.nextFutureId + 1 }.setBatch c.nextFutureId
      (.prepareBatchOperation cfg.numWorkers batchOp keys)

def enqueueRequest (futureId : ℕ) : NativeConnector K :=
  match c.batches futureId with
  | none => c
  | some b =>
      if c.enqueued futureId < b.numTiles then
        { c with
          requests := c.requests ++ [(futureId, c.enqueued futureId)]
          enqueued := update c.enqueued futureId (c.enqueued futureId + 1) }
      else c

def workOn (worker futureId tile : ℕ) (b : NativeBatch K) (outcome : Except String Bool) :
    NativeConnector K :=
  let b' := b.exec futureId c.stop tile outcome
  { (c.setBatch futureId b').setWorker worker
      (match b'.points tile with
        | .done => .idle
        | .abandoned => .exited
        | _ => .busy futureId tile) with
    completions := c.completions ++ (b.points tile).pushes }

def take (c : NativeConnector K) (worker : ℕ) : NativeConnector K :=
  if worker < cfg.numWorkers ∧ c.workers worker = .idle then
    match c.requests with
    | [] => if c.stop then c.setWorker worker .exited else c
    | (futureId, tile) :: requests =>
        match c.batches futureId with
        | none => c
        | some b => { c with requests := requests }.workOn worker futureId tile b (.ok false)
  else c

def work (worker : ℕ) (outcome : Except String Bool) : NativeConnector K :=
  match c.workers worker with
  | .busy futureId tile =>
      match c.batches futureId with
      | none => c
      | some b => c.workOn worker futureId tile b outcome
  | _ => c

def exec (c : NativeConnector K) : ConnectorEvent K → NativeConnector K
  | .submit batchOp keys => c.submit cfg batchOp keys
  | .enqueueRequest futureId => c.enqueueRequest futureId
  | .take worker => c.take cfg worker
  | .work worker outcome => c.work worker outcome
  | .close => { c with stop := true }

open Execution

variable {cfg : ConnectorConfig} {c : NativeConnector K} {futureId tile : ℕ}

def HasTile (c : NativeConnector K) (futureId tile : ℕ) : Prop :=
  ∃ b, c.batches futureId = some b ∧ tile < b.numTiles

def completionsOf (c : NativeConnector K) (futureId : ℕ) : List BatchCompletion :=
  c.completions.filter fun completion => completion.futureId = futureId

structure Serves (cfg : ConnectorConfig) (c : NativeConnector K) : Prop where
  kept : ∀ id b, c.batches id = some b → b.Kept cfg.numWorkers id
  completed : ∀ id b, c.batches id = some b → c.completionsOf id = b.pushed
  fresh : ∀ id, c.nextFutureId ≤ id → c.batches id = none ∧ c.completionsOf id = []
  queued : ∀ p ∈ c.requests, c.HasTile p.1 p.2
  busy : ∀ worker id tile, c.workers worker = .busy id tile → c.HasTile id tile

theorem serves_start : Serves cfg (start : NativeConnector K) :=
  ⟨fun _ _ h => (nomatch h), fun _ _ h => (nomatch h), fun _ _ => ⟨rfl, rfl⟩,
    fun _ h => (not_mem_nil h).elim, fun _ _ _ h => (nomatch h)⟩

theorem serves_submit (h : c.Serves cfg) (batchOp : NativeOp) (keys : List K) :
    (c.submit cfg batchOp keys).Serves cfg := by
  rw [submit]
  split_ifs with hempty
  · exact h
  have hkeys : keys ≠ [] := fun hnil => hempty (hnil ▸ rfl)
  have hbatches : ∀ id, update c.batches c.nextFutureId
      (some (.prepareBatchOperation cfg.numWorkers batchOp keys)) id =
        if id = c.nextFutureId then some (.prepareBatchOperation cfg.numWorkers batchOp keys)
        else c.batches id := fun id => update_apply ..
  have hnone := h.fresh c.nextFutureId le_rfl
  have htile : ∀ id tile, c.HasTile id tile →
      ({ c with nextFutureId := c.nextFutureId + 1 }.setBatch c.nextFutureId
        (.prepareBatchOperation cfg.numWorkers batchOp keys)).HasTile id tile := by
    rintro id tile ⟨b, hb, hlt⟩
    refine ⟨b, (hbatches id).trans ?_, hlt⟩
    rw [if_neg]
    · exact hb
    · rintro rfl
      rw [hnone.1] at hb
      cases hb
  refine ⟨fun id b hb => ?_, fun id b hb => ?_, fun id hle => ?_, fun p hp => ?_,
    fun worker id tile hbusy => ?_⟩
  · rw [show NativeConnector.batches _ id = _ from hbatches id] at hb
    split_ifs at hb with heq
    · cases hb
      exact NativeBatch.kept_prepareBatchOperation cfg.workers_pos id batchOp hkeys
    · exact h.kept id b hb
  · rw [show NativeConnector.batches _ id = _ from hbatches id] at hb
    split_ifs at hb with heq
    · cases hb
      rw [heq]
      exact hnone.2
    · exact h.completed id b hb
  · change c.nextFutureId + 1 ≤ id at hle
    obtain ⟨hbatch, hcompletions⟩ := h.fresh id (by omega)
    refine ⟨(hbatches id).trans ?_, hcompletions⟩
    rw [if_neg (by omega)]
    exact hbatch
  · exact htile _ _ (h.queued p hp)
  · exact htile _ _ (h.busy worker id tile hbusy)

theorem serves_enqueueRequest (h : c.Serves cfg) (futureId : ℕ) :
    (c.enqueueRequest futureId).Serves cfg := by
  rw [enqueueRequest]
  cases hbatch : c.batches futureId with
  | none => exact h
  | some b =>
    dsimp only
    split_ifs with hlt
    · refine ⟨h.kept, h.completed, h.fresh, fun p hp => ?_, h.busy⟩
      rcases mem_append.mp hp with hold | hnew
      · exact h.queued p hold
      · rw [mem_singleton.mp hnew]
        exact ⟨b, hbatch, hlt⟩
    · exact h

variable {b : NativeBatch K}

theorem completionsOf_workOn (h : c.Serves cfg) (hbatch : c.batches futureId = some b) (worker : ℕ)
    (outcome : Except String Bool) (id : ℕ) :
    (c.workOn worker futureId tile b outcome).completionsOf id =
      if id = futureId then (b.exec futureId c.stop tile outcome).pushed else c.completionsOf id := by
  have hpushed := h.completed futureId b hbatch
  have hids : ∀ completion ∈ (b.points tile).pushes, completion.futureId = futureId := by
    intro completion hmem
    cases hpoint : b.points tile with
    | push pushed =>
      rw [hpoint] at hmem
      rw [mem_singleton.mp hmem]
      exact (h.kept futureId b hbatch).signed.pushing tile pushed hpoint
    | _ =>
      rw [hpoint] at hmem
      cases hmem
  rw [NativeBatch.pushed_exec]
  change filter _ (c.completions ++ (b.points tile).pushes) = _
  rw [filter_append]
  split_ifs with heq
  · rw [heq]
    refine congrArg₂ (· ++ ·) hpushed (filter_eq_self.mpr fun completion hmem => ?_)
    exact decide_eq_true (hids completion hmem)
  · have hnone : (b.points tile).pushes.filter (fun completion => completion.futureId = id) = [] := by
      refine filter_eq_nil_iff.mpr fun completion hmem hid => ?_
      exact heq ((of_decide_eq_true hid).symm.trans (hids completion hmem))
    rw [hnone, append_nil]
    rfl

theorem serves_workOn (h : c.Serves cfg) (hbatch : c.batches futureId = some b)
    (hlt : tile < b.numTiles) (worker : ℕ) (outcome : Except String Bool) :
    (c.workOn worker futureId tile b outcome).Serves cfg := by
  have hkept := (h.kept futureId b hbatch).exec hlt c.stop outcome
  have hnum := (NativeBatch.exec_frame futureId c.stop b tile outcome).2.2.1
  have hbatches : ∀ id, (c.workOn worker futureId tile b outcome).batches id =
      if id = futureId then some (b.exec futureId c.stop tile outcome) else c.batches id :=
    fun id => update_apply ..
  have htile : ∀ id t, c.HasTile id t → (c.workOn worker futureId tile b outcome).HasTile id t := by
    rintro id t ⟨b', hb', hlt'⟩
    by_cases heq : id = futureId
    · rw [heq, hbatch] at hb'
      cases hb'
      exact ⟨_, (hbatches id).trans (if_pos heq), hnum.symm ▸ hlt'⟩
    · exact ⟨b', (hbatches id).trans ((if_neg heq).trans hb'), hlt'⟩
  refine ⟨fun id b' hb' => ?_, fun id b' hb' => ?_, fun id hle => ?_, fun p hp => ?_,
    fun w id t hbusy => ?_⟩
  · rw [hbatches] at hb'
    split_ifs at hb' with heq
    · cases hb'
      exact heq ▸ hkept
    · exact h.kept id b' hb'
  · rw [completionsOf_workOn h hbatch]
    rw [hbatches] at hb'
    split_ifs at hb' ⊢
    · cases hb'
      rfl
    · exact h.completed id b' hb'
  · have hne : id ≠ futureId := by
      rintro rfl
      rw [(h.fresh id hle).1] at hbatch
      cases hbatch
    rw [hbatches, completionsOf_workOn h hbatch, if_neg hne, if_neg hne]
    exact h.fresh id hle
  · exact htile _ _ (h.queued p hp)
  · change update c.workers worker _ w = _ at hbusy
    refine htile id t ?_
    by_cases heq : w = worker
    · rw [heq, update_self] at hbusy
      split at hbusy
      · cases hbusy
      · cases hbusy
      · cases hbusy
        exact ⟨b, hbatch, hlt⟩
    · rw [update_of_ne heq] at hbusy
      exact h.busy w id t hbusy

theorem serves_exec (h : c.Serves cfg) (event : ConnectorEvent K) : (c.exec cfg event).Serves cfg := by
  cases event with
  | submit batchOp keys => exact serves_submit h batchOp keys
  | enqueueRequest futureId => exact serves_enqueueRequest h futureId
  | take worker =>
    change (c.take cfg worker).Serves cfg
    rw [take]
    by_cases hidle : worker < cfg.numWorkers ∧ c.workers worker = .idle
    · rw [if_pos hidle]
      cases hrequests : c.requests with
      | nil =>
        dsimp only
        split_ifs
        · refine ⟨h.kept, h.completed, h.fresh, h.queued, fun w id tile hbusy => ?_⟩
          change update c.workers worker _ w = _ at hbusy
          by_cases heq : w = worker
          · rw [heq, update_self] at hbusy
            cases hbusy
          · rw [update_of_ne heq] at hbusy
            exact h.busy w id tile hbusy
        · exact h
      | cons p requests =>
        obtain ⟨id, tile⟩ := p
        obtain ⟨b, hbatch, hlt⟩ := h.queued (id, tile) (hrequests ▸ mem_cons_self)
        have hpopped : Serves cfg { c with requests := requests } :=
          ⟨h.kept, h.completed, h.fresh,
            fun p hp => h.queued p (hrequests ▸ mem_cons_of_mem _ hp), h.busy⟩
        dsimp only at hbatch ⊢
        rw [hbatch]
        exact serves_workOn hpopped hbatch hlt worker (.ok false)
    · rw [if_neg hidle]
      exact h
  | work worker outcome =>
    change (c.work worker outcome).Serves cfg
    rw [work]
    cases hbusy : c.workers worker with
    | busy id tile =>
      obtain ⟨b, hbatch, hlt⟩ := h.busy worker id tile hbusy
      dsimp only
      rw [hbatch]
      exact serves_workOn h hbatch hlt worker outcome
    | _ => exact h
  | close => exact ⟨h.kept, h.completed, h.fresh, h.queued, h.busy⟩

theorem serves_final (cfg : ConnectorConfig) (events : List (ConnectorEvent K)) :
    (final (exec cfg) start events).Serves cfg :=
  invariant_final (Q := fun _ _ => True) (I := Serves cfg) (fun _ event h _ => serves_exec h event) serves_start
    (along_of_forall (fun _ _ => trivial) _ _)

structure TilesPartition (b : NativeBatch K) : Prop where
  covered : ∀ i < b.keys.length, ∃! tile, tile < b.numTiles ∧ b.tileStart tile ≤ i ∧ i < b.tileEnd tile
  inside : ∀ tile i, b.tileStart tile ≤ i → i < b.tileEnd tile → i < b.keys.length

structure Aligned (b : NativeBatch K) (completion : BatchCompletion) : Prop where
  length : completion.resultBytes.length = b.keys.length
  answers : ∀ i key, b.keys[i]? = some key →
    ∃ r ∈ b.replies, b.tileStart r.tile + r.i = i ∧ r.key = key ∧
      completion.resultBytes[i]? = some r.answer.toNat ∧
        ∀ r' ∈ b.replies, b.tileStart r'.tile + r'.i = i → r' = r

structure CompletesOnce (c : NativeConnector K) (futureId : ℕ) (b : NativeBatch K) : Prop where
  tiles : TilesPartition b
  atMostOnce : (c.completionsOf futureId).length ≤ 1
  afterAll : ∀ completion ∈ c.completionsOf futureId,
    ∀ tile < b.numTiles, (b.points tile).unfinished = false
  once : (∀ tile < b.numTiles, (b.points tile).unfinished = false) →
    (c.completionsOf futureId).length + b.finishingTiles = 1
  pushes : ∀ tile stop outcome, (b.points tile).finishing = true →
    ((fun b : NativeBatch K => b.exec futureId stop tile outcome)^[4] b).points tile = .done
  ok : ∀ completion ∈ c.completionsOf futureId, (completion.ok = true ↔ b.threw = [])
  aligned : b.batchOp = .batchTileExists → ∀ completion ∈ c.completionsOf futureId,
    completion.ok = true → Aligned b completion

def stepsLeft : TilePoint → ℕ
  | .loadFailed => 4
  | .readError => 3
  | .assemble _ _ => 2
  | .push _ => 1
  | _ => 0

theorem stepsLeft_pos {point : TilePoint} (h : point.finishing = true) : 0 < stepsLeft point := by
  cases point with
  | loadFailed | readError | assemble | push => exact Nat.succ_pos _
  | _ => cases h

def Pushing (point : TilePoint) : Prop := point = .done ∨ point.finishing = true

theorem pushing_exec (h : Pushing (b.points tile)) (futureId : ℕ) (stop : Bool)
    (outcome : Except String Bool) :
    Pushing ((b.exec futureId stop tile outcome).points tile) ∧
      stepsLeft ((b.exec futureId stop tile outcome).points tile) ≤ stepsLeft (b.points tile) - 1 := by
  have hmoved : ∀ (b' : NativeBatch K) point, (b'.moveTo tile point).points tile = point :=
    fun b' point => update_self ..
  rw [NativeBatch.exec]
  cases hpoint : b.points tile with
  | loadFailed =>
    rw [hmoved]
    split_ifs
    · exact ⟨.inr rfl, le_rfl⟩
    · exact ⟨.inr rfl, Nat.le_succ 2⟩
  | readError =>
    rw [hmoved]
    exact ⟨.inr rfl, le_rfl⟩
  | assemble ok error =>
    dsimp only
    split_ifs
    all_goals rw [hmoved]
    all_goals exact ⟨.inr rfl, le_rfl⟩
  | push completion =>
    rw [hmoved]
    exact ⟨.inl rfl, le_rfl⟩
  | done =>
    rw [hpoint]
    exact ⟨.inl rfl, le_rfl⟩
  | _ =>
    rw [hpoint] at h
    rcases h with h | h <;> cases h

theorem iterate_exec_of_pushing (futureId : ℕ) (stop : Bool) (outcome : Except String Bool) (n : ℕ)
    (b : NativeBatch K) (h : Pushing (b.points tile)) (hn : stepsLeft (b.points tile) ≤ n) :
    ((fun b : NativeBatch K => b.exec futureId stop tile outcome)^[n] b).points tile = .done := by
  induction n generalizing b with
  | zero =>
    rcases h with hdone | hfinishing
    · exact hdone
    · have hpos := stepsLeft_pos hfinishing
      omega
  | succ n ih =>
    obtain ⟨hpushing, hsteps⟩ := pushing_exec h futureId stop outcome
    exact ih _ hpushing (hsteps.trans (by omega))

theorem completesOnce (cfg : ConnectorConfig) (events : List (ConnectorEvent K)) (futureId : ℕ)
    (b : NativeBatch K) (h : (final (exec cfg) start events).batches futureId = some b) :
    CompletesOnce (final (exec cfg) start events) futureId b := by
  have hserves := serves_final cfg events
  have hkept := hserves.kept futureId b h
  have hcompleted := hserves.completed futureId b h
  have hlast := hkept.counted.last
  constructor
  case tiles =>
    exact ⟨fun i hi => hkept.prepared.partition cfg.workers_pos hi,
      fun tile i _ hi => lt_of_lt_of_le hi (Nat.min_le_right _ _)⟩
  case atMostOnce =>
    rw [hcompleted]
    split_ifs at hlast <;> omega
  case afterAll =>
    rw [hcompleted]
    intro completion hmem tile hlt
    exact hkept.counted.finished_of_zero (hkept.counted.zero_of_pushed (ne_nil_of_mem hmem)) hlt
  case once =>
    rw [hcompleted]
    intro hfinished
    have hzero : b.remainingTiles = 0 := by
      rw [hkept.counted.remaining]
      refine countP_eq_zero.mpr fun tile htile => ?_
      rw [hfinished tile (mem_range.mp htile)]
      exact Bool.false_ne_true
    rwa [if_pos hzero] at hlast
  case pushes =>
    intro tile stop outcome hfinishing
    refine iterate_exec_of_pushing futureId stop outcome 4 b (.inr hfinishing) ?_
    cases b.points tile <;> simp [stepsLeft]
  case ok =>
    rw [hcompleted]
    exact hkept.judged.pushed
  case aligned =>
    rw [hcompleted]
    intro hexists completion hmem hok
    exact ⟨((hkept.results hexists).pushed completion hmem).1,
      fun i key hkey => hkept.aligned cfg.workers_pos hexists hmem hok hkey⟩

def twoWorkers : ConnectorConfig := ⟨2, Nat.two_pos⟩

def foundTwo : List (ConnectorEvent ℕ) :=
  [.submit .batchTileExists [7, 8], .enqueueRequest 1, .enqueueRequest 1, .take 0, .take 1] ++
    replicate 6 (.work 1 (.ok true)) ++ replicate 6 (.work 0 (.ok false))

theorem completesOnce_foundTwo :
    (final (exec twoWorkers) start foundTwo).completions = [⟨1, true, "", [0, 1]⟩] ∧
      ∃ b, (final (exec twoWorkers) start foundTwo).batches 1 = some b ∧
        CompletesOnce (final (exec twoWorkers) start foundTwo) 1 b :=
  ⟨by decide, _, rfl, completesOnce twoWorkers foundTwo 1 _ rfl⟩

end NativeConnector

end LMCache
