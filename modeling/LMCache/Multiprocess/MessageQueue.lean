import LMCache.Foundations.Execution
import Mathlib.Data.List.Nodup
import Mathlib.Data.List.Perm.Basic
import Mathlib.Tactic.Linarith

namespace LMCache

open Function List Nat

inductive MqHandlerType where
  | sync
  | blocking
deriving DecidableEq

structure MqProtocol (Ty Cls P F V : Type) where
  payloadClasses : Ty → Option (List Cls)
  handlers : Ty → Option MqHandlerType
  encodeUid : ℕ → F
  decodeUid : F → Option ℕ
  encodeType : Ty → F
  decodeType : F → Option Ty
  encode : Cls → P → Option F
  decode : Cls → F → Option P
  encodeResponse : V → Option F
  decodeResponse : Ty → F → Option V
  decodeUid_encodeUid : ∀ uid, decodeUid (encodeUid uid) = some uid
  decodeType_encodeType : ∀ ty, (payloadClasses ty).isSome → decodeType (encodeType ty) = some ty

structure WrappedRequest (C Ty P : Type) where
  client : C
  requestUid : ℕ
  future : ℕ
  requestType : Ty
  requestPayloads : List P
deriving DecidableEq

inductive SubmitPhase (Ty P : Type) where
  | outside
  | hasRead (requestUid : ℕ) (requestType : Ty) (requestPayloads : List P)
  | hasIncremented (requestUid : ℕ) (requestType : Ty) (requestPayloads : List P)

inductive MqStage where
  | toServer
  | running
  | outputQueue
  | toClient
deriving DecidableEq

-- future is not part of a message: it is there to say which request the message belongs to
structure MqMessage (C F : Type) where
  identity : Option C
  frames : List F
  future : ℕ
  stage : MqStage
deriving DecidableEq

inductive HandlerOutcome (V : Type) where
  | returns (response : Option V)
  | raises

structure MqSystem (C Th Ty P F V : Type) where
  requestCounter : C → ℕ
  threads : C → Th → SubmitPhase Ty P
  nextFuture : ℕ
  inputQueue : List (WrappedRequest C Ty P)
  pendingFutures : C → ℕ → Option ℕ
  clientAlive : C → Bool
  serverAlive : Bool
  messages : List (MqMessage C F)
  submitted : List (WrappedRequest C Ty P)
  returned : List (ℕ × Option V)
  raised : List ℕ
  results : List (ℕ × Option V)

inductive MqEvent (C Th Ty P F V : Type) where
  | read (client : C) (thread : Th) (requestType : Ty) (requestPayloads : List P)
  | increment (client : C) (thread : Th)
  | put (client : C) (thread : Th)
  | processOutboundTask (i : ℕ)
  | foreign (frames : List F)
  | serve (i : ℕ) (outcome : HandlerOutcome V)
  | complete (i : ℕ) (outcome : HandlerOutcome V)
  | sendResponse (i : ℕ)
  | receiveResponse (i : ℕ)

namespace MqProtocol

variable {Ty Cls P F V : Type} (p : MqProtocol Ty Cls P F V)

def encodePayloads (ty : Ty) (payloads : List P) : Option (List F) :=
  (p.payloadClasses ty).bind fun payloadClasses =>
    if payloadClasses.length ≠ payloads.length then none
    else (payloads.zip payloadClasses).mapM fun x => p.encode x.2 x.1

def unwrapRequestPayloads (ty : Ty) (bPayloads : List F) : Option (List P) :=
  (p.payloadClasses ty).bind fun payloadClasses =>
    if bPayloads.length ≠ payloadClasses.length then none
    else (bPayloads.zip payloadClasses).mapM fun x => p.decode x.2 x.1

def responseFrames : HandlerOutcome V → Option (List F)
  | .raises => none
  | .returns none => some []
  | .returns (some v) => (p.encodeResponse v).map fun b => [b]

def Reads (ty : Ty) (bResponse : List F) : Option V → Prop
  | none => bResponse = []
  | some v => ∃ b, bResponse = [b] ∧ p.decodeResponse ty b = some v

end MqProtocol

namespace MqSystem

variable {C Th Ty Cls P F V : Type}

def start : MqSystem C Th Ty P F V where
  requestCounter _ := 0
  threads _ _ := .outside
  nextFuture := 0
  inputQueue := []
  pendingFutures _ _ := none
  clientAlive _ := true
  serverAlive := true
  messages := []
  submitted := []
  returned := []
  raised := []
  results := []

def setThread [DecidableEq C] [DecidableEq Th] (s : MqSystem C Th Ty P F V) (c : C) (t : Th)
    (phase : SubmitPhase Ty P) : MqSystem C Th Ty P F V :=
  { s with threads := update s.threads c (update (s.threads c) t phase) }

def setPending [DecidableEq C] (s : MqSystem C Th Ty P F V) (c : C) (uid : ℕ)
    (future : Option ℕ) : MqSystem C Th Ty P F V :=
  { s with
    pendingFutures := update s.pendingFutures c
      (update (s.pendingFutures c) uid future) }

def clientDies [DecidableEq C] (s : MqSystem C Th Ty P F V) (c : C) : MqSystem C Th Ty P F V :=
  { s with clientAlive := update s.clientAlive c false }

def submitRequest (s : MqSystem C Th Ty P F V) (c : C) (uid : ℕ) (ty : Ty) (payloads : List P) :
    MqSystem C Th Ty P F V :=
  { s with
    inputQueue := s.inputQueue ++ [⟨c, uid, s.nextFuture, ty, payloads⟩]
    submitted := s.submitted ++ [⟨c, uid, s.nextFuture, ty, payloads⟩]
    nextFuture := s.nextFuture + 1 }

def processOutboundTask [DecidableEq C] (p : MqProtocol Ty Cls P F V)
    (s : MqSystem C Th Ty P F V) (w : WrappedRequest C Ty P) : MqSystem C Th Ty P F V :=
  let s := s.setPending w.client w.requestUid (some w.future)
  match p.encodePayloads w.requestType w.requestPayloads with
  | some bPayloads =>
      { s with
        messages := s.messages ++ [⟨some w.client,
          p.encodeUid w.requestUid :: p.encodeType w.requestType :: bPayloads, w.future,
          .toServer⟩] }
  | none => s.clientDies w.client

def logOutcome (s : MqSystem C Th Ty P F V) (m : MqMessage C F) (outcome : HandlerOutcome V) :
    MqSystem C Th Ty P F V :=
  match m.identity, outcome with
  | some _, .returns v => { s with returned := s.returned ++ [(m.future, v)] }
  | some _, .raises => { s with raised := s.raised ++ [m.future] }
  | none, _ => s

variable (p : MqProtocol Ty Cls P F V) (s : MqSystem C Th Ty P F V)

def handlerEnds (i : ℕ) (m : MqMessage C F) (outcome : HandlerOutcome V) (stage : MqStage) :
    MqSystem C Th Ty P F V :=
  match p.responseFrames outcome with
  | some bResponse =>
      { s.logOutcome m outcome with
        messages := s.messages.set i
          { m with frames := m.frames.take 2 ++ bResponse, stage := stage } }
  | none => { s.logOutcome m outcome with messages := s.messages.eraseIdx i }

def serve (i : ℕ) (m : MqMessage C F) (outcome : HandlerOutcome V) : MqSystem C Th Ty P F V :=
  match m.frames with
  | bUid :: bType :: bPayloads =>
      match p.decodeType bType with
      | none => { s with messages := s.messages.eraseIdx i, serverAlive := false }
      | some ty =>
          match p.handlers ty, p.unwrapRequestPayloads ty bPayloads with
          | some .sync, some _ => handlerEnds p s i m outcome .toClient
          | some .blocking, some _ =>
              { s with
                messages := s.messages.set i { m with frames := [bUid, bType], stage := .running } }
          | _, _ => { s with messages := s.messages.eraseIdx i }
  | _ => { s with messages := s.messages.eraseIdx i, serverAlive := false }

def setResult (future : ℕ) (result : Option V) : MqSystem C Th Ty P F V :=
  { s with results := s.results ++ [(future, result)] }

def receiveResponse [DecidableEq C] (p : MqProtocol Ty Cls P F V) (s : MqSystem C Th Ty P F V)
    (c : C) (frames : List F) : MqSystem C Th Ty P F V :=
  match frames with
  | bUid :: bType :: bResponse =>
      match p.decodeUid bUid, (p.decodeType bType).filter fun ty => (p.payloadClasses ty).isSome with
      | some uid, some ty =>
          match s.pendingFutures c uid, bResponse with
          | none, _ => s
          | some future, [] => (s.setPending c uid none).setResult future none
          | some future, b :: _ =>
              match p.decodeResponse ty b with
              | some v => (s.setPending c uid none).setResult future (some v)
              | none => (s.setPending c uid none).clientDies c
      | _, _ => s.clientDies c
  | _ => s.clientDies c

def exec [DecidableEq C] [DecidableEq Th] (p : MqProtocol Ty Cls P F V)
    (s : MqSystem C Th Ty P F V) : MqEvent C Th Ty P F V →
    MqSystem C Th Ty P F V
  | .read c t ty payloads =>
      match s.threads c t with
      | .outside => s.setThread c t (.hasRead (s.requestCounter c) ty payloads)
      | _ => s
  | .increment c t =>
      match s.threads c t with
      | .hasRead uid ty payloads =>
          { s.setThread c t (.hasIncremented uid ty payloads) with
            requestCounter := update s.requestCounter c (s.requestCounter c + 1) }
      | _ => s
  | .put c t =>
      match s.threads c t with
      | .hasIncremented uid ty payloads =>
          (s.setThread c t .outside).submitRequest c uid ty payloads
      | _ => s
  | .processOutboundTask i =>
      match s.inputQueue[i]? with
      | some w =>
          if s.clientAlive w.client then
            processOutboundTask p { s with inputQueue := s.inputQueue.eraseIdx i } w
          else s
      | none => s
  | .foreign frames =>
      { s with
        messages := s.messages ++ [⟨none, frames, s.nextFuture, .toServer⟩]
        nextFuture := s.nextFuture + 1 }
  | .serve i outcome =>
      match s.messages[i]? with
      | some m => if s.serverAlive ∧ m.stage = .toServer then serve p s i m outcome else s
      | none => s
  | .complete i outcome =>
      match s.messages[i]? with
      | some m => if m.stage = .running then handlerEnds p s i m outcome .outputQueue else s
      | none => s
  | .sendResponse i =>
      match s.messages[i]? with
      | some m =>
          if s.serverAlive ∧ m.stage = .outputQueue then
            { s with messages := s.messages.set i { m with stage := .toClient } }
          else s
      | none => s
  | .receiveResponse i =>
      match s.messages[i]? with
      | some m =>
          if m.stage = .toClient then
            match m.identity with
            | none => { s with messages := s.messages.eraseIdx i }
            | some c =>
                if s.clientAlive c then
                  receiveResponse p { s with messages := s.messages.eraseIdx i } c m.frames
                else s
          else s
      | none => s

def WellFormed (w : WrappedRequest C Ty P) : Prop :=
  (p.handlers w.requestType).isSome ∧ ∃ bPayloads,
    p.encodePayloads w.requestType w.requestPayloads = some bPayloads ∧
      (p.unwrapRequestPayloads w.requestType bPayloads).isSome

def Idle : Prop := s.inputQueue = [] ∧ s.messages = []

structure Correct (p : MqProtocol Ty Cls P F V) (s : MqSystem C Th Ty P F V) : Prop where
  alive : s.serverAlive = true ∧ ∀ c, s.clientAlive c = true
  once : (s.results.map Prod.fst).Nodup
  own : (s.returned.map Prod.fst).Nodup ∧ ∀ e ∈ s.results, e ∈ s.returned
  answered : s.Idle → ∀ w ∈ s.submitted, WellFormed p w → w.future ∉ s.raised →
    ∃ v, (w.future, v) ∈ s.returned ∧ (w.future, v) ∈ s.results

def Fits (m : MqMessage C F) : HandlerOutcome V → Prop
  | .returns (some v) => m.identity.isSome → ∀ bType ∈ m.frames[1]?, ∀ ty ∈ p.decodeType bType,
      ∃ b ∈ p.encodeResponse v, p.decodeResponse ty b = some v
  | _ => True

def Regular :
    MqEvent C Th Ty P F V → Prop
  | .processOutboundTask i => ∀ w ∈ s.inputQueue[i]?,
      (p.encodePayloads w.requestType w.requestPayloads).isSome ∧
        ∀ m ∈ s.messages, m.identity = some w.client → m.frames.head? ≠ some (p.encodeUid w.requestUid)
  | .serve i outcome => ∀ m ∈ s.messages[i]?, m.stage = .toServer →
      (∃ bType ∈ m.frames[1]?, (p.decodeType bType).isSome) ∧ Fits p m outcome
  | .complete i outcome => ∀ m ∈ s.messages[i]?, m.stage = .running → Fits p m outcome
  | _ => True

def stepsLeft : MqStage → ℕ
  | .toServer => 4
  | .running => 3
  | .outputQueue => 2
  | .toClient => 1

def work : ℕ :=
  5 * s.inputQueue.length + (s.messages.map fun m => stepsLeft m.stage).sum

def openFutures : List ℕ :=
  s.messages.map MqMessage.future ++ s.inputQueue.map WrappedRequest.future

def MailOk (m : MqMessage C F) : Prop :=
  ∀ c, m.identity = some c → ∃ uid ty rest, m.frames = p.encodeUid uid :: p.encodeType ty :: rest ∧
    (p.payloadClasses ty).isSome ∧ s.pendingFutures c uid = some m.future ∧
    match m.stage with
    | .toServer | .running => ∀ v, (m.future, v) ∉ s.returned
    | .outputQueue | .toClient => ∃ v, (m.future, v) ∈ s.returned ∧ p.Reads ty rest v ∧
        ∀ v', (m.future, v') ∉ s.results

def Replying (m : MqMessage C F) : Prop :=
  m.identity.isSome ∧ (m.stage = .outputQueue ∨ m.stage = .toClient)

def Carries (m : MqMessage C F) (w : WrappedRequest C Ty P) : Prop :=
  m.future = w.future ∧ m.identity = some w.client ∧
    (m.stage = .running ∨ m.stage = .toServer ∧ ∃ bPayloads,
      p.encodePayloads w.requestType w.requestPayloads = some bPayloads ∧
        m.frames = p.encodeUid w.requestUid :: p.encodeType w.requestType :: bPayloads)

structure Inv (p : MqProtocol Ty Cls P F V) (s : MqSystem C Th Ty P F V) : Prop where
  alive : s.serverAlive = true ∧ ∀ c, s.clientAlive c = true
  fresh : (∀ future ∈ s.openFutures, future < s.nextFuture) ∧ ∀ e ∈ s.returned, e.1 < s.nextFuture
  nodup : s.openFutures.Nodup
  queued : ∀ w ∈ s.inputQueue, ∀ v, (w.future, v) ∉ s.returned
  mail : ∀ m ∈ s.messages, MailOk p s m
  once : (s.results.map Prod.fst).Nodup
  own : (s.returned.map Prod.fst).Nodup ∧ ∀ e ∈ s.results, e ∈ s.returned
  delivered : ∀ e ∈ s.returned, e ∈ s.results ∨ ∃ m ∈ s.messages, m.future = e.1 ∧ Replying m
  accounted : ∀ w ∈ s.submitted, WellFormed p w → w ∈ s.inputQueue ∨
    (∃ m ∈ s.messages, Carries p m w) ∨ (∃ v, (w.future, v) ∈ s.returned) ∨ w.future ∈ s.raised

variable {p : MqProtocol Ty Cls P F V} {s : MqSystem C Th Ty P F V} {m m' : MqMessage C F}
  {pre post : List (MqMessage C F)} {i : ℕ}

theorem inv_start : Inv p (start : MqSystem C Th Ty P F V) where
  alive := ⟨rfl, fun _ => rfl⟩
  fresh := ⟨by simp [start, openFutures], by simp [start]⟩
  nodup := nodup_nil
  queued := by simp [start]
  mail := by simp [start]
  once := nodup_nil
  own := ⟨nodup_nil, by simp [start]⟩
  delivered := by simp [start]
  accounted := by simp [start]

theorem Inv.correct (h : s.Inv p) : s.Correct p where
  alive := h.alive
  once := h.once
  own := h.own
  answered hidle w hw hwell hnot := by
    obtain ⟨hqueue, hmessages⟩ := hidle
    have hreturned : ∃ v, (w.future, v) ∈ s.returned := by
      simpa [hqueue, hmessages, hnot] using h.accounted w hw hwell
    obtain ⟨v, hv⟩ := hreturned
    refine ⟨v, hv, ?_⟩
    simpa [hmessages] using h.delivered _ hv

theorem split_messages {messages : List (MqMessage C F)} (hget : messages[i]? = some m) :
    ∃ pre post, messages = pre ++ m :: post ∧ messages.eraseIdx i = pre ++ post ∧
      ∀ m', messages.set i m' = pre ++ m' :: post := by
  obtain ⟨hi, rfl⟩ := List.getElem?_eq_some_iff.mp hget
  refine ⟨messages.take i, messages.drop (i + 1), ?_, eraseIdx_eq_take_drop_succ _ _,
    fun m' => set_eq_take_append_cons_drop.trans (if_pos hi)⟩
  rw [getElem_cons_drop, take_append_drop]

theorem Inv.apart (h : s.Inv p) (hmessages : s.messages = pre ++ m :: post) :
    (∀ x ∈ pre ++ post, x.future ≠ m.future) ∧ (∀ w ∈ s.inputQueue, w.future ≠ m.future) := by
  have hnodup := h.nodup
  simp only [openFutures, hmessages, map_append, map_cons, nodup_append,
    nodup_cons, mem_append, mem_map, mem_cons] at hnodup
  obtain ⟨⟨_, ⟨hpost, _⟩, hpre⟩, _, hqueue⟩ := hnodup
  refine ⟨fun x hx heq => ?_, fun w hw heq => ?_⟩
  · rcases mem_append.mp hx with hx | hx
    · exact hpre _ ⟨x, hx, rfl⟩ _ (.inl rfl) heq
    · exact hpost ⟨x, hx, heq⟩
  · exact hqueue _ (.inr (.inl rfl)) _ ⟨w, hw, rfl⟩ heq.symm

theorem mem_middle {A : Type} {x y : A} {pre post : List A} :
    x ∈ pre ++ y :: post ↔ x = y ∨ x ∈ pre ++ post :=
  perm_middle.mem_iff.trans mem_cons

theorem Inv.move (h : s.Inv p) (hmessages : s.messages = pre ++ m :: post)
    (m' : MqMessage C F) (hfuture : m'.future = m.future) (new : List (Option V))
    (hnew : new.length ≤ 1) (hunreturned : new ≠ [] → ∀ v, (m.future, v) ∉ s.returned)
    (hmail : MailOk p { s with returned := s.returned ++ new.map fun v => (m.future, v) } m')
    (hreply : Replying m ∨ new ≠ [] → Replying m')
    (hcarries : ∀ w, Carries p m w → Carries p m' w ∨ new ≠ []) :
    Inv p { s with
      messages := pre ++ m' :: post
      returned := s.returned ++ new.map fun v => (m.future, v) } := by
  obtain ⟨hothers, hqueue⟩ := h.apart hmessages
  have hopen : openFutures { s with
      messages := pre ++ m' :: post
      returned := s.returned ++ new.map fun v => (m.future, v) } = s.openFutures := by
    simp [openFutures, hmessages, hfuture]
  have hmem : ∀ future v, (future, v) ∈ s.returned ++ new.map (fun v => (m.future, v)) →
      future ≠ m.future → (future, v) ∈ s.returned := by
    intro future v hv hne
    rcases mem_append.mp hv with hv | hv
    · exact hv
    · obtain ⟨_, _, heq⟩ := mem_map.mp hv
      exact absurd (congrArg Prod.fst heq).symm hne
  have hid : m.future ∈ s.openFutures := by simp [openFutures, hmessages]
  refine ⟨h.alive, ⟨by rw [hopen]; exact h.fresh.1, fun e he => ?_⟩, by rw [hopen]; exact h.nodup,
    fun w hw v hv => h.queued w hw v (hmem _ _ hv (hqueue w hw)), fun x hx => ?_, h.once, ⟨?_, ?_⟩,
    fun e he => ?_, fun w hw hwell => ?_⟩
  · rcases mem_append.mp he with he | he
    · exact h.fresh.2 e he
    · obtain ⟨_, _, rfl⟩ := mem_map.mp he
      exact h.fresh.1 _ hid
  · rcases mem_middle.mp hx with rfl | hx'
    · exact hmail
    · have hold : x ∈ s.messages := by
        rw [hmessages]
        exact mem_middle.mpr (.inr hx')
      have hne := hothers x hx'
      intro c hc
      obtain ⟨uid, ty, rest, hframes, hknown, hpending, hstage⟩ := h.mail x hold c hc
      refine ⟨uid, ty, rest, hframes, hknown, hpending, ?_⟩
      cases hx : x.stage with
      | toServer | running => rw [hx] at hstage; exact fun v hv => hstage v (hmem _ _ hv hne)
      | outputQueue | toClient =>
        rw [hx] at hstage
        exact hstage.imp fun v hv => ⟨mem_append_left _ hv.1, hv.2⟩
  · rw [map_append]
    refine h.own.1.append ?_ fun future hleft hright => ?_
    · cases new with
      | nil => exact nodup_nil
      | cons v rest =>
        obtain rfl := eq_nil_of_length_eq_zero (le_zero.mp (le_of_succ_le_succ hnew))
        exact nodup_singleton _
    · obtain ⟨e, he, rfl⟩ := mem_map.mp hleft
      rw [map_map, mem_map] at hright
      obtain ⟨v, hv, heq⟩ := hright
      exact hunreturned (ne_nil_of_mem hv) e.2 (by rw [show m.future = e.1 from heq]; exact he)
  · exact fun e he => mem_append_left _ (h.own.2 e he)
  · rcases mem_append.mp he with he | he
    · rcases h.delivered e he with hresult | ⟨x, hx, hxe, hxr⟩
      · exact .inl hresult
      · rw [hmessages] at hx
        rcases mem_middle.mp hx with rfl | hx'
        · exact .inr ⟨m', by simp, hfuture.trans hxe, hreply (.inl hxr)⟩
        · exact .inr ⟨x, mem_middle.mpr (.inr hx'), hxe, hxr⟩
    · obtain ⟨v, hv, rfl⟩ := mem_map.mp he
      exact .inr ⟨m', by simp, hfuture, hreply (.inr (ne_nil_of_mem hv))⟩
  · rcases h.accounted w hw hwell with hin | ⟨x, hx, hxw⟩ | ⟨v, hv⟩ | hraised
    · exact .inl hin
    · rw [hmessages] at hx
      rcases mem_middle.mp hx with rfl | hx'
      · rcases hcarries w hxw with hcarries | hne
        · exact .inr (.inl ⟨m', by simp, hcarries⟩)
        · obtain ⟨v, hv⟩ := exists_mem_of_ne_nil new hne
          refine .inr (.inr (.inl ⟨v, mem_append_right _ (mem_map.mpr ⟨v, hv, ?_⟩)⟩))
          rw [hxw.1]
      · exact .inr (.inl ⟨x, mem_middle.mpr (.inr hx'), hxw⟩)
    · exact .inr (.inr (.inl ⟨v, mem_append_left _ hv⟩))
    · exact .inr (.inr (.inr hraised))

theorem Inv.drop (h : s.Inv p) (hmessages : s.messages = pre ++ m :: post) (new : List ℕ)
    (hreply : ¬ Replying m) (hcarries : ∀ w, WellFormed p w → Carries p m w → w.future ∈ new) :
    Inv p { s with messages := pre ++ post, raised := s.raised ++ new } := by
  have hsub : (pre ++ post).Sublist s.messages := by
    rw [hmessages]
    exact (List.Sublist.refl pre).append (sublist_cons_self m post)
  have hopen : (openFutures { s with messages := pre ++ post, raised := s.raised ++ new }).Sublist
      s.openFutures := (hsub.map _).append_right _
  refine ⟨h.alive, ⟨fun future hf => h.fresh.1 future (hopen.subset hf), h.fresh.2⟩,
    h.nodup.sublist hopen, h.queued, fun x hx => h.mail x (hsub.subset hx), h.once, h.own,
    fun e he => ?_, fun w hw hwell => ?_⟩
  · rcases h.delivered e he with hresult | ⟨x, hx, hxe, hxr⟩
    · exact .inl hresult
    · rw [hmessages] at hx
      rcases mem_middle.mp hx with rfl | hx'
      · exact absurd hxr hreply
      · exact .inr ⟨x, hx', hxe, hxr⟩
  · rcases h.accounted w hw hwell with hin | ⟨x, hx, hxw⟩ | hreturned | hraised
    · exact .inl hin
    · rw [hmessages] at hx
      rcases mem_middle.mp hx with rfl | hx'
      · exact .inr (.inr (.inr (mem_append_right _ (hcarries w hwell hxw))))
      · exact .inr (.inl ⟨x, hx', hxw⟩)
    · exact .inr (.inr (.inl hreturned))
    · exact .inr (.inr (.inr (mem_append_left _ hraised)))

theorem Inv.deliver [DecidableEq C] (h : s.Inv p) (hmessages : s.messages = pre ++ m :: post)
    {c : C} {uid : ℕ} (hpending : s.pendingFutures c uid = some m.future) {v : Option V}
    (hreturned : (m.future, v) ∈ s.returned) (hunset : ∀ v', (m.future, v') ∉ s.results)
    (hreplying : m.stage = .toClient) :
    Inv p ((({ s with messages := pre ++ post } : MqSystem C Th Ty P F V).setPending c uid
      none).setResult m.future v) := by
  obtain ⟨hothers, hqueue⟩ := h.apart hmessages
  have hsub : (pre ++ post).Sublist s.messages := by
    rw [hmessages]
    exact (List.Sublist.refl pre).append (sublist_cons_self m post)
  have hopen : (openFutures ((({ s with messages := pre ++ post } :
      MqSystem C Th Ty P F V).setPending c uid none).setResult m.future v)).Sublist s.openFutures :=
    (hsub.map _).append_right _
  refine ⟨h.alive, ⟨fun future hf => h.fresh.1 future (hopen.subset hf), h.fresh.2⟩,
    h.nodup.sublist hopen, h.queued, fun x hx c' hc' => ?_, ?_, ⟨h.own.1, fun e he => ?_⟩,
    fun e he => ?_, fun w hw hwell => ?_⟩
  · obtain ⟨uid', ty, rest, hframes, hknown, hpending', hstage⟩ := h.mail x (hsub.subset hx) c' hc'
    have hne := hothers x hx
    refine ⟨uid', ty, rest, hframes, hknown, ?_, ?_⟩
    · change update s.pendingFutures c (update (s.pendingFutures c) uid none) c'
        uid' = _
      by_cases hc : c' = c
      · subst hc
        rw [update_self]
        have huid : uid' ≠ uid := by
          rintro rfl
          exact hne (Option.some.inj (hpending'.symm.trans hpending))
        rw [update_of_ne huid, hpending']
      · rw [update_of_ne hc, hpending']
    · have hkeep : ∀ v', (x.future, v') ∉ s.results → (x.future, v') ∉ s.results ++ [(m.future, v)] := by
        intro v' hv' hmem
        rcases mem_append.mp hmem with hmem | hmem
        · exact hv' hmem
        · exact hne (congrArg Prod.fst (mem_singleton.mp hmem))
      cases hx : x.stage with
      | toServer => rw [hx] at hstage; exact hstage
      | running => rw [hx] at hstage; exact hstage
      | outputQueue | toClient =>
        rw [hx] at hstage
        exact hstage.imp fun v hv => ⟨hv.1, hv.2.1, fun v' => hkeep v' (hv.2.2 v')⟩
  · change ((s.results ++ [(m.future, v)]).map Prod.fst).Nodup
    rw [map_append]
    refine h.once.append (nodup_singleton _) fun future hleft hright => ?_
    obtain ⟨e, he, rfl⟩ := mem_map.mp hleft
    have heq : e.1 = m.future := by simpa using hright
    exact hunset e.2 (heq ▸ he)
  · rcases mem_append.mp he with he | he
    · exact h.own.2 e he
    · rw [mem_singleton.mp he]
      exact hreturned
  · rcases h.delivered e he with hresult | ⟨x, hx, hxe, hxr⟩
    · exact .inl (mem_append_left _ hresult)
    · rw [hmessages] at hx
      rcases mem_middle.mp hx with rfl | hx'
      · refine .inl (mem_append_right _ (mem_singleton.mpr ?_))
        have hinj := inj_on_of_nodup_map h.own.1 he hreturned hxe.symm
        exact hinj
      · exact .inr ⟨x, hx', hxe, hxr⟩
  · rcases h.accounted w hw hwell with hin | ⟨x, hx, hxw⟩ | hrest
    · exact .inl hin
    · rw [hmessages] at hx
      rcases mem_middle.mp hx with rfl | hx'
      · rcases hxw.2.2 with hstage | ⟨hstage, _⟩ <;> simp [hreplying] at hstage
      · exact .inr (.inl ⟨x, hx', hxw⟩)
    · exact .inr (.inr hrest)

theorem Inv.submitRequest (h : s.Inv p) (c : C) (uid : ℕ) (ty : Ty) (payloads : List P) :
    (s.submitRequest c uid ty payloads).Inv p := by
  have hopen : (s.submitRequest c uid ty payloads).openFutures = s.openFutures ++ [s.nextFuture] := by
    simp [openFutures, MqSystem.submitRequest]
  refine ⟨h.alive, ⟨fun future hf => ?_, fun e he => lt_succ_of_lt (h.fresh.2 e he)⟩, ?_,
    fun w hw v hv => ?_, h.mail, h.once, h.own, h.delivered, fun w hw hwell => ?_⟩
  · rw [hopen] at hf
    rcases mem_append.mp hf with hf | hf
    · exact lt_succ_of_lt (h.fresh.1 future hf)
    · exact mem_singleton.mp hf ▸ lt_succ_self _
  · rw [hopen]
    refine h.nodup.append (nodup_singleton _) fun future hleft hright => ?_
    rw [mem_singleton.mp hright] at hleft
    exact lt_irrefl _ (h.fresh.1 _ hleft)
  · rcases mem_append.mp hw with hw | hw
    · exact h.queued w hw v hv
    · obtain rfl := mem_singleton.mp hw
      exact absurd (h.fresh.2 _ hv) (lt_irrefl _)
  · rcases mem_append.mp hw with hw | hw
    · exact (h.accounted w hw hwell).imp_left (mem_append_left _)
    · exact .inl (mem_append_right _ hw)

theorem Inv.foreign (h : s.Inv p) (frames : List F) :
    Inv p { s with
      messages := s.messages ++ [⟨none, frames, s.nextFuture, .toServer⟩]
      nextFuture := s.nextFuture + 1 } := by
  have hopen : (openFutures { s with
      messages := s.messages ++ [⟨none, frames, s.nextFuture, .toServer⟩]
      nextFuture := s.nextFuture + 1 }).Perm (s.nextFuture :: s.openFutures) := by
    simp only [openFutures, map_append, map_singleton]
    rw [append_assoc, singleton_append]
    exact perm_middle
  refine ⟨h.alive, ⟨fun future hf => ?_, fun e he => lt_succ_of_lt (h.fresh.2 e he)⟩, ?_,
    h.queued, fun x hx => ?_, h.once, h.own, fun e he => ?_, fun w hw hwell => ?_⟩
  · rcases mem_cons.mp (hopen.subset hf) with rfl | hf
    · exact lt_succ_self _
    · exact lt_succ_of_lt (h.fresh.1 future hf)
  · refine hopen.nodup_iff.mpr (nodup_cons.mpr ⟨fun hmem => ?_, h.nodup⟩)
    exact lt_irrefl _ (h.fresh.1 _ hmem)
  · rcases mem_append.mp hx with hx | hx
    · exact h.mail x hx
    · intro c hc
      simp [mem_singleton.mp hx] at hc
  · refine (h.delivered e he).imp_right ?_
    rintro ⟨x, hx, hrest⟩
    exact ⟨x, mem_append_left _ hx, hrest⟩
  · refine (h.accounted w hw hwell).imp_right (Or.imp_left ?_)
    rintro ⟨x, hx, hrest⟩
    exact ⟨x, mem_append_left _ hx, hrest⟩

theorem Inv.outbound [DecidableEq C] (h : s.Inv p) {w : WrappedRequest C Ty P}
    (hget : s.inputQueue[i]? = some w) {bPayloads : List F}
    (hencodes : p.encodePayloads w.requestType w.requestPayloads = some bPayloads)
    (hunused : ∀ m ∈ s.messages, m.identity = some w.client →
      m.frames.head? ≠ some (p.encodeUid w.requestUid)) :
    Inv p (processOutboundTask p { s with inputQueue := s.inputQueue.eraseIdx i } w) := by
  obtain ⟨hi, hat⟩ := List.getElem?_eq_some_iff.mp hget
  have hperm : (w :: s.inputQueue.eraseIdx i).Perm s.inputQueue :=
    hat ▸ getElem_cons_eraseIdx_perm hi
  have hw : w ∈ s.inputQueue := mem_of_getElem? hget
  rw [processOutboundTask, hencodes]
  dsimp only
  have hopen : ((s.messages ++ [(⟨some w.client,
      p.encodeUid w.requestUid :: p.encodeType w.requestType :: bPayloads, w.future,
      .toServer⟩ : MqMessage C F)]).map MqMessage.future ++
        (s.inputQueue.eraseIdx i).map WrappedRequest.future).Perm s.openFutures := by
    rw [map_append, map_singleton, append_assoc, singleton_append]
    exact (hperm.map WrappedRequest.future).append_left _
  have hknown : (p.payloadClasses w.requestType).isSome := by
    rw [MqProtocol.encodePayloads] at hencodes
    cases hclasses : p.payloadClasses w.requestType with
    | none => simp [hclasses] at hencodes
    | some classes => rfl
  refine ⟨h.alive, ⟨fun future hf => h.fresh.1 future (hopen.subset hf), h.fresh.2⟩,
    hopen.nodup_iff.mpr h.nodup, fun w' hw' => h.queued w' ((eraseIdx_sublist _ _).subset hw'),
    fun x hx c hc => ?_, h.once, h.own, fun e he => ?_, fun w' hw' hwell => ?_⟩
  · change ∃ uid ty rest, _ ∧ _ ∧ update s.pendingFutures w.client
      (update (s.pendingFutures w.client) w.requestUid (some w.future)) c uid = _ ∧ _
    rcases mem_append.mp hx with hx | hx
    · obtain ⟨uid, ty, rest, hframes, hknown', hpending, hstage⟩ := h.mail x hx c hc
      refine ⟨uid, ty, rest, hframes, hknown', ?_, hstage⟩
      by_cases hclient : c = w.client
      · subst hclient
        have huid : uid ≠ w.requestUid := by
          rintro rfl
          exact hunused x hx hc (by rw [hframes, head?_cons])
        rw [update_self, update_of_ne huid, hpending]
      · rw [update_of_ne hclient, hpending]
    · obtain rfl := mem_singleton.mp hx
      obtain rfl := Option.some.inj hc
      refine ⟨w.requestUid, w.requestType, bPayloads, rfl, hknown, ?_, h.queued w hw⟩
      rw [update_self, update_self]
  · refine (h.delivered e he).imp_right ?_
    rintro ⟨x, hx, hrest⟩
    exact ⟨x, mem_append_left _ hx, hrest⟩
  · rcases h.accounted w' hw' hwell with hin | ⟨x, hx, hxw⟩ | hrest
    · rcases mem_cons.mp (hperm.symm.subset hin) with rfl | hin
      · refine .inr (.inl ⟨_, mem_append_right _ (mem_singleton_self _), rfl, rfl, .inr ⟨rfl,
          bPayloads, hencodes, rfl⟩⟩)
      · exact .inl hin
    · exact .inr (.inl ⟨x, mem_append_left _ hx, hxw⟩)
    · exact .inr (.inr hrest)

variable {outcome : HandlerOutcome V}

theorem Inv.handlerEnds (h : s.Inv p) (hget : s.messages[i]? = some m)
    (hstage : m.stage = .toServer ∨ m.stage = .running) {stage : MqStage}
    (hto : stage = .outputQueue ∨ stage = .toClient) (hfits : Fits p m outcome) :
    (handlerEnds p s i m outcome stage).Inv p := by
  obtain ⟨pre, post, hmessages, herase, hset⟩ := split_messages hget
  have hnotReplying : ¬ Replying m := by
    rintro ⟨_, hout | hcli⟩ <;> rcases hstage with hst | hst <;> simp_all
  have hmail := h.mail m (by simp [hmessages])
  cases hidentity : m.identity with
  | none =>
    have hforeign : ∀ w, ¬ Carries p m w := fun w hw => by simp [hw.2.1] at hidentity
    cases hresponse : p.responseFrames outcome with
    | none =>
      have hdrop := h.drop hmessages [] hnotReplying fun w _ hw => absurd hw (hforeign w)
      simpa [MqSystem.handlerEnds, logOutcome, hresponse, hidentity, herase] using hdrop
    | some bResponse =>
      have hmove := h.move hmessages
        { m with frames := m.frames.take 2 ++ bResponse, stage := stage } rfl [] (by simp)
        (by simp) (fun c hc => by simp [hidentity] at hc) (by simp [hnotReplying])
        fun w hw => absurd hw (hforeign w)
      simpa [MqSystem.handlerEnds, logOutcome, hresponse, hidentity, hset] using hmove
  | some c =>
    obtain ⟨uid, ty, rest, hframes, hknown, hpending, hplace⟩ := hmail c hidentity
    have hunreturned : ∀ v, (m.future, v) ∉ s.returned := by
      rcases hstage with hst | hst <;> rw [hst] at hplace <;> exact hplace
    cases outcome with
    | raises =>
      have hdrop := h.drop hmessages [m.future] hnotReplying
        fun w _ hw => mem_singleton.mpr hw.1.symm
      simpa [MqSystem.handlerEnds, logOutcome, MqProtocol.responseFrames, hidentity, herase]
        using hdrop
    | returns v =>
      have hreads : ∃ bResponse, p.responseFrames (.returns v) = some bResponse ∧
          p.Reads ty bResponse v := by
        cases v with
        | none => exact ⟨[], rfl, rfl⟩
        | some v =>
          obtain ⟨b, hb, hdecodes⟩ := hfits (by simp [hidentity]) (p.encodeType ty)
            (by simp [hframes]) ty (p.decodeType_encodeType ty hknown)
          refine ⟨[b], ?_, b, rfl, hdecodes⟩
          rw [MqProtocol.responseFrames, Option.mem_def.mp hb]
          rfl
      obtain ⟨bResponse, hresponse, hreads⟩ := hreads
      have hmove := h.move hmessages
        { m with frames := m.frames.take 2 ++ bResponse, stage := stage } rfl [v] (by simp)
        (fun _ => hunreturned) (fun c' hc' => ?_)
        (fun _ => ⟨by simp [hidentity], hto⟩) (fun w _ => .inr (by simp))
      · simpa [MqSystem.handlerEnds, logOutcome, hresponse, hidentity, hset] using hmove
      · refine ⟨uid, ty, bResponse, by simp [hframes], hknown, ?_, ?_⟩
        · obtain rfl := Option.some.inj (hidentity.symm.trans hc')
          exact hpending
        · have hlast : ∃ v', (m.future, v') ∈ s.returned ++ [v].map (fun v => (m.future, v)) ∧
              p.Reads ty bResponse v' ∧ ∀ v'', (m.future, v'') ∉ s.results :=
            ⟨v, by simp, hreads, fun v'' hv'' => hunreturned v'' (h.own.2 _ hv'')⟩
          rcases hto with rfl | rfl <;> exact hlast

theorem Inv.serve (h : s.Inv p) (hget : s.messages[i]? = some m) (hstage : m.stage = .toServer)
    (hdecodes : ∃ bType ∈ m.frames[1]?, (p.decodeType bType).isSome) (hfits : Fits p m outcome) :
    (serve p s i m outcome).Inv p := by
  obtain ⟨pre, post, hmessages, herase, hset⟩ := split_messages hget
  obtain ⟨bType, hbType, hsome⟩ := hdecodes
  obtain ⟨ty, hty⟩ := Option.isSome_iff_exists.mp hsome
  have hframes : ∃ bUid bPayloads, m.frames = bUid :: bType :: bPayloads := by
    rcases hm : m.frames with _ | ⟨bUid, _ | ⟨b, rest⟩⟩
    · simp [hm] at hbType
    · simp [hm] at hbType
    · obtain rfl : b = bType := by simpa [hm] using hbType
      exact ⟨bUid, rest, rfl⟩
  obtain ⟨bUid, bPayloads, hframes⟩ := hframes
  have hnotReplying : ¬ Replying m := by
    rintro ⟨_, hst | hst⟩ <;> simp [hstage] at hst
  have hrefused : (p.handlers ty).isNone ∨ p.unwrapRequestPayloads ty bPayloads = none →
      Inv p { s with messages := pre ++ post } := by
    intro hbad
    have hdrop := h.drop hmessages [] hnotReplying fun w hwell hw => ?_
    · simpa using hdrop
    · rcases hw.2.2 with hst | ⟨_, b, hencodes, hsent⟩
      · simp [hstage] at hst
      · rw [hframes] at hsent
        obtain ⟨_, rfl, rfl⟩ : bUid = p.encodeUid w.requestUid ∧ bType = p.encodeType w.requestType ∧
          bPayloads = b := by simpa using hsent
        obtain ⟨hhandler, b', hencodes', hdecodes'⟩ := hwell
        obtain rfl := Option.some.inj (hencodes.symm.trans hencodes')
        have hknown : (p.payloadClasses w.requestType).isSome := by
          rw [MqProtocol.encodePayloads] at hencodes
          cases hclasses : p.payloadClasses w.requestType with
          | none => simp [hclasses] at hencodes
          | some classes => rfl
        obtain rfl := Option.some.inj (hty.symm.trans (p.decodeType_encodeType _ hknown))
        rcases hbad with hnone | hnone
        · simp [Option.isNone_iff_eq_none.mp hnone] at hhandler
        · simp [hnone] at hdecodes'
  rw [MqSystem.serve, hframes]
  dsimp only
  rw [hty]
  dsimp only
  split
  · exact h.handlerEnds hget (.inl hstage) (.inr rfl) hfits
  · have hmove := h.move hmessages
      { m with frames := [bUid, bType], stage := .running } rfl [] (by simp) (by simp)
      (fun c hc => ?_) (by simp [hnotReplying]) fun w hw => .inl ⟨hw.1, hw.2.1, .inl rfl⟩
    · simpa [hset] using hmove
    · obtain ⟨uid, ty', rest, hframes', hknown, hpending, hplace⟩ :=
        h.mail m (by simp [hmessages]) c hc
      rw [hframes] at hframes'
      obtain ⟨rfl, rfl, rfl⟩ : bUid = p.encodeUid uid ∧ bType = p.encodeType ty' ∧
        bPayloads = rest := by simpa using hframes'
      rw [hstage] at hplace
      exact ⟨uid, ty', [], rfl, hknown, hpending, by simpa using hplace⟩
  · rename_i hneither hnor
    rw [herase]
    refine hrefused ?_
    cases hhandler : p.handlers ty with
    | none => exact .inl rfl
    | some kind =>
      cases hargs : p.unwrapRequestPayloads ty bPayloads with
      | none => exact .inr rfl
      | some args =>
        cases kind with
        | sync => exact absurd hargs (hneither args hhandler)
        | blocking => exact absurd hargs (hnor args hhandler)

theorem Inv.sendResponse (h : s.Inv p) (hget : s.messages[i]? = some m)
    (hstage : m.stage = .outputQueue) :
    Inv p { s with messages := s.messages.set i { m with stage := .toClient } } := by
  obtain ⟨pre, post, hmessages, herase, hset⟩ := split_messages hget
  have hmove := h.move hmessages { m with stage := .toClient } rfl [] (by simp)
    (by simp) (fun c hc => ?_) (fun hr => ⟨?_, .inr rfl⟩) fun w hw => ?_
  · simpa [hset] using hmove
  · obtain ⟨uid, ty, rest, hframes, hknown, hpending, hplace⟩ :=
      h.mail m (by simp [hmessages]) c hc
    rw [hstage] at hplace
    exact ⟨uid, ty, rest, hframes, hknown, hpending, by simpa using hplace⟩
  · rcases hr with hr | hr
    · exact hr.1
    · simp at hr
  · rcases hw.2.2 with hst | ⟨hst, _⟩ <;> simp [hstage] at hst

theorem Inv.receiveResponse [DecidableEq C] (h : s.Inv p) (hget : s.messages[i]? = some m)
    (hstage : m.stage = .toClient) {c : C} (hidentity : m.identity = some c) :
    (receiveResponse p { s with messages := s.messages.eraseIdx i } c m.frames).Inv p := by
  obtain ⟨pre, post, hmessages, herase, hset⟩ := split_messages hget
  obtain ⟨uid, ty, rest, hframes, hknown, hpending, hplace⟩ :=
    h.mail m (by simp [hmessages]) c hidentity
  rw [hstage] at hplace
  obtain ⟨v, hreturned, hreads, hunset⟩ := hplace
  have hdeliver := h.deliver hmessages hpending hreturned hunset hstage
  have htype : (p.decodeType (p.encodeType ty)).filter (fun ty => (p.payloadClasses ty).isSome) =
      some ty := by
    rw [p.decodeType_encodeType ty hknown, Option.filter_some, if_pos hknown]
  rw [hframes, herase, MqSystem.receiveResponse]
  dsimp only
  rw [p.decodeUid_encodeUid, htype]
  dsimp only
  rw [hpending]
  cases v with
  | none =>
    obtain rfl : rest = [] := hreads
    exact hdeliver
  | some v =>
    obtain ⟨b, rfl, hdecodes⟩ := hreads
    dsimp only
    rw [hdecodes]
    exact hdeliver

variable {rest : List (MqMessage C F)}

theorem work_lt {s' : MqSystem C Th Ty P F V} (hmessages : s.messages = m :: rest)
    (hqueue : s'.inputQueue = s.inputQueue)
    (h : s'.messages = rest ∨
      ∃ m', s'.messages = m' :: rest ∧ stepsLeft m'.stage < stepsLeft m.stage) :
    s'.work < s.work := by
  rw [work, work, hqueue, hmessages]
  rcases h with h | ⟨m', h, hlt⟩
  · have hpos : 0 < stepsLeft m.stage := by cases m.stage <;> simp [stepsLeft]
    rw [h, map_cons, sum_cons]
    omega
  · rw [h, map_cons, map_cons, sum_cons, sum_cons]
    omega

theorem work_handlerEnds (hmessages : s.messages = m :: rest) (stage : MqStage) :
    (handlerEnds p s 0 m .raises stage).work < s.work := by
  have hqueue : (s.logOutcome m .raises).inputQueue = s.inputQueue := by
    cases hidentity : m.identity <;> simp [logOutcome, hidentity]
  refine work_lt hmessages hqueue (.inl ?_)
  change s.messages.eraseIdx 0 = rest
  rw [hmessages, eraseIdx_cons_zero]

variable [DecidableEq C] [DecidableEq Th]

theorem inv_exec (s : MqSystem C Th Ty P F V) (event : MqEvent C Th Ty P F V) (h : s.Inv p)
    (hregular : s.Regular p event) : (exec p s event).Inv p := by
  cases event with
  | read c t ty payloads | increment c t =>
    rw [exec]
    split
    · exact ⟨h.alive, h.fresh, h.nodup, h.queued, h.mail, h.once, h.own, h.delivered, h.accounted⟩
    · exact h
  | put c t =>
    rw [exec]
    split
    · have hthread : (s.setThread c t .outside).Inv p :=
        ⟨h.alive, h.fresh, h.nodup, h.queued, h.mail, h.once, h.own, h.delivered, h.accounted⟩
      exact hthread.submitRequest c _ _ _
    · exact h
  | processOutboundTask i =>
    rw [exec]
    cases hget : s.inputQueue[i]? with
    | none => exact h
    | some w =>
      obtain ⟨hencodes, hunused⟩ := hregular w hget
      obtain ⟨bPayloads, hencodes⟩ := Option.isSome_iff_exists.mp hencodes
      dsimp only
      rw [if_pos (h.alive.2 w.client)]
      exact h.outbound hget hencodes hunused
  | foreign frames => exact h.foreign frames
  | serve i outcome =>
    rw [exec]
    cases hget : s.messages[i]? with
    | none => exact h
    | some m =>
      dsimp only
      split_ifs with hserves
      · obtain ⟨hdecodes, hfits⟩ := hregular m hget hserves.2
        exact h.serve hget hserves.2 hdecodes hfits
      · exact h
  | complete i outcome =>
    rw [exec]
    cases hget : s.messages[i]? with
    | none => exact h
    | some m =>
      dsimp only
      split_ifs with hruns
      · exact h.handlerEnds hget (.inr hruns) (.inl rfl) (hregular m hget hruns)
      · exact h
  | sendResponse i =>
    rw [exec]
    cases hget : s.messages[i]? with
    | none => exact h
    | some m =>
      dsimp only
      split_ifs with hsends
      · exact h.sendResponse hget hsends.2
      · exact h
  | receiveResponse i =>
    rw [exec]
    cases hget : s.messages[i]? with
    | none => exact h
    | some m =>
      dsimp only
      split_ifs with harrives
      · cases hidentity : m.identity with
        | none =>
          obtain ⟨pre, post, hmessages, herase, hset⟩ := split_messages hget
          have hdrop := h.drop hmessages [] (by simp [Replying, hidentity])
            fun w _ hw => by simp [hw.2.1] at hidentity
          simpa [herase] using hdrop
        | some c =>
          dsimp only
          rw [if_pos (h.alive.2 c)]
          exact h.receiveResponse hget harrives hidentity
      · exact h

theorem exists_work_lt (p : MqProtocol Ty Cls P F V) (s : MqSystem C Th Ty P F V)
    (hserver : s.serverAlive = true) (hclients : ∀ c, s.clientAlive c = true) (hidle : ¬ s.Idle) :
    ∃ event, (exec p s event).work < s.work := by
  rcases hmessages : s.messages with _ | ⟨m, rest⟩
  · rcases hqueue : s.inputQueue with _ | ⟨w, rest⟩
    · exact absurd ⟨hqueue, hmessages⟩ hidle
    · refine ⟨.processOutboundTask 0, ?_⟩
      cases hencodes : p.encodePayloads w.requestType w.requestPayloads with
      | none =>
        simp [exec, work, processOutboundTask, setPending, clientDies, hencodes, hqueue, hmessages,
          hclients w.client]
      | some bPayloads =>
        simp [exec, work, processOutboundTask, setPending, hencodes, hqueue, hmessages,
          hclients w.client, stepsLeft]
        omega
  · have hget : s.messages[0]? = some m := by simp [hmessages]
    cases hstage : m.stage with
    | toServer =>
      refine ⟨.serve 0 .raises, ?_⟩
      have hexec : exec p s (.serve 0 .raises) = serve p s 0 m .raises := by
        simp [exec, hget, hserver, hstage]
      rw [hexec, serve]
      split
      · split
        · exact work_lt hmessages rfl (.inl (by simp [hmessages]))
        · split
          · exact work_handlerEnds hmessages _
          · exact work_lt hmessages rfl (.inr ⟨_, by simp [hmessages]; rfl, by simp [hstage, stepsLeft]⟩)
          · exact work_lt hmessages rfl (.inl (by simp [hmessages]))
      · exact work_lt hmessages rfl (.inl (by simp [hmessages]))
    | running =>
      refine ⟨.complete 0 .raises, ?_⟩
      have hexec : exec p s (.complete 0 .raises) = handlerEnds p s 0 m .raises .outputQueue := by
        simp [exec, hget, hstage]
      rw [hexec]
      exact work_handlerEnds hmessages _
    | outputQueue =>
      refine ⟨.sendResponse 0, ?_⟩
      have hexec : exec p s (.sendResponse 0) =
          { s with messages := s.messages.set 0 { m with stage := .toClient } } := by
        simp [exec, hget, hserver, hstage]
      rw [hexec]
      exact work_lt hmessages rfl (.inr ⟨{ m with stage := .toClient }, by simp [hmessages],
        by simp [hstage, stepsLeft]⟩)
    | toClient =>
      refine ⟨.receiveResponse 0, work_lt hmessages ?_ (.inl ?_)⟩
      all_goals
        simp only [exec, hget, hstage, if_true]
        cases m.identity with
        | none => simp [hmessages]
        | some c =>
          simp only [hclients c, if_true]
          rw [MqSystem.receiveResponse.eq_def]
          repeat' split
          all_goals simp [hmessages, clientDies, setPending, setResult]

open Execution

theorem correct_of_regular (p : MqProtocol Ty Cls P F V) (events : List (MqEvent C Th Ty P F V))
    (hregular : Along (exec p) (Regular p) start events) :
    Along (exec p) (fun s event => (exec p s event).Correct p) start events ∧
      ∀ pre rest, events = pre ++ rest → ¬ (final (exec p) start pre).Idle →
        ∃ event, (exec p (final (exec p) start pre) event).work < (final (exec p) start pre).work := by
  constructor
  · exact along_of_invariant inv_exec (fun s event h hr => (inv_exec s event h hr).correct) inv_start
      hregular
  · rintro pre rest rfl hidle
    have hinv := invariant_final inv_exec inv_start ((along_append _ _ _).mp hregular).1
    exact exists_work_lt p _ hinv.alive.1 hinv.alive.2 hidle

def oneType : MqProtocol ℕ Unit ℕ ℕ ℕ where
  payloadClasses ty := if ty = 0 then some [()] else none
  handlers ty := if ty = 0 then some .sync else none
  encodeUid := id
  decodeUid := some
  encodeType := id
  decodeType b := if b = 0 then some 0 else none
  encode _ := some
  decode _ := some
  encodeResponse := some
  decodeResponse _ := some
  decodeUid_encodeUid _ := rfl
  decodeType_encodeType ty h := by
    by_cases hty : ty = 0
    · simp [hty]
    · simp [hty] at h

def twoRequests : List (MqEvent Unit Bool ℕ ℕ ℕ ℕ) :=
  [.read () false 0 [7], .increment () false, .read () true 0 [8], .increment () true,
    .put () true, .put () false, .processOutboundTask 0, .processOutboundTask 0,
    .serve 0 (.returns (some 10)), .serve 1 (.returns (some 20)), .receiveResponse 0,
    .receiveResponse 0]

theorem correct_of_regular_twoRequests :
    Along (exec oneType) (fun s event => (exec oneType s event).Correct oneType) start twoRequests ∧
      ∀ pre rest, twoRequests = pre ++ rest → ¬ (final (exec oneType) start pre).Idle →
        ∃ event, (exec oneType (final (exec oneType) start pre) event).work <
          (final (exec oneType) start pre).work := by
  refine correct_of_regular oneType twoRequests
    ⟨trivial, trivial, trivial, trivial, trivial, trivial, ?_, ?_, ?_, ?_, trivial, trivial, trivial⟩
  · rintro w hw
    obtain rfl := Option.some.inj hw
    exact ⟨rfl, fun m hm => absurd hm not_mem_nil⟩
  · rintro w hw
    obtain rfl := Option.some.inj hw
    exact ⟨rfl, fun m hm _ => mem_singleton.mp hm ▸ by decide⟩
  · rintro m hm _
    obtain rfl := Option.some.inj hm
    exact ⟨⟨0, rfl, rfl⟩, fun _ bType _ ty _ => ⟨10, rfl, rfl⟩⟩
  · rintro m hm _
    obtain rfl := Option.some.inj hm
    exact ⟨⟨0, rfl, rfl⟩, fun _ bType _ ty _ => ⟨20, rfl, rfl⟩⟩

def racingThreads : List (MqEvent Unit Bool ℕ ℕ ℕ ℕ) :=
  [.read () false 0 [7], .read () true 0 [8], .increment () false, .increment () true,
    .put () false, .put () true, .processOutboundTask 0, .processOutboundTask 0,
    .serve 0 (.returns (some 10)), .receiveResponse 0]

theorem not_correct_racingThreads :
    ¬ ∀ (p : MqProtocol ℕ Unit ℕ ℕ ℕ) (events : List (MqEvent Unit Bool ℕ ℕ ℕ ℕ)),
      Along (exec p) (fun s event => (exec p s event).Correct p) start events := by
  intro h
  obtain ⟨_, _, _, _, _, _, _, _, _, hlast, _⟩ := h oneType racingThreads
  have hown := hlast.own.2 (1, some 10) (by decide)
  revert hown
  decide

end MqSystem

end LMCache
