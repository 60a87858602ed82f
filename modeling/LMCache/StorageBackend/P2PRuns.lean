import Mathlib.Data.List.Count
import Mathlib.Data.List.Lattice
import Mathlib.Data.List.Perm.Basic
import LMCache.Foundations.Cells
import LMCache.StorageBackend.P2PBackend

namespace LMCache

open Function List Cells Option

theorem mem_zip_hitObjs {K A B : Type} {hotCache : K → Option B} {stored : List (K × B)}
    (hcache : ∀ key obj, hotCache key = some obj → (key, obj) ∈ stored) {keys : List K}
    {memIndexes : List A} {page : A × B} (h : page ∈ memIndexes.zip (hitObjs hotCache keys)) :
    ∃ key, (key, page.1) ∈ keys.zip memIndexes ∧ (key, page.2) ∈ stored := by
  induction keys generalizing memIndexes with
  | nil => simp [hitObjs] at h
  | cons key keys ih =>
    cases memIndexes with
    | nil => simp at h
    | cons addr memIndexes =>
      rw [hitObjs] at h
      cases hobj : hotCache key with
      | none => simp [hobj] at h
      | some obj =>
        rw [hobj, zip_cons_cons, mem_cons] at h
        rcases h with rfl | hrest
        · exact ⟨key, mem_cons_self, hcache key obj hobj⟩
        · obtain ⟨key', hmem, hstored⟩ := ih hrest
          exact ⟨key', mem_cons_of_mem _ hmem, hstored⟩

theorem mem_take_hitObjs {K A B : Type} {hotCache : K → Option B} {keys : List K}
    {memIndexes : List A} {e : K × A}
    (h : e ∈ (keys.zip memIndexes).take (hitObjs hotCache keys).length) :
    ∃ bytes, (e.2, bytes) ∈ memIndexes.zip (hitObjs hotCache keys) := by
  induction keys generalizing memIndexes with
  | nil => simp at h
  | cons key keys ih =>
    cases memIndexes with
    | nil => simp at h
    | cons addr memIndexes =>
      rw [hitObjs] at h ⊢
      cases hobj : hotCache key with
      | none => simp [hobj] at h
      | some obj =>
        rw [hobj, zip_cons_cons, length_cons, take_succ_cons, mem_cons] at h
        rcases h with rfl | hrest
        · exact ⟨obj, mem_cons_self⟩
        · obtain ⟨bytes, hmem⟩ := ih hrest
          exact ⟨bytes, mem_cons_of_mem _ hmem⟩

namespace P2PRun

variable {P R K A B : Type} {run run' : P2PRun P R K A B}

def Chunk (run : P2PRun P R K A B) (e : K × A) : Prop := (e.1, run.memory e.2) ∈ run.stored

def Backed (run : P2PRun P R K A B) (msg : BatchedLookupAndGetMsg R K A) : Prop :=
  ∃ get, run.gets msg.lookupId = some get ∧ get.phase.live = true ∧ get.keys = msg.keys ∧
    get.memObjs = msg.memIndexes

def Transfers (run : P2PRun P R K A B) (msg : BatchedLookupAndGetMsg R K A) (numHitChunks : ℕ)
    (pages : List (A × B)) : Prop :=
  (∀ e ∈ (msg.keys.zip msg.memIndexes).take numHitChunks,
    run.Chunk e ∨ ∃ bytes, (e.2, bytes) ∈ pages) ∧
    ∀ page ∈ pages, ∃ key, (key, page.1) ∈ msg.keys.zip msg.memIndexes ∧
      (key, page.2) ∈ run.stored

def Serves (run : P2PRun P R K A B) : P2PServing R K A B → Prop
  | .idle => True
  | .received msg => run.Backed msg
  | .transferring msg numHitChunks pages =>
      run.Backed msg ∧ run.Transfers msg numHitChunks pages

def Replied (run : P2PRun P R K A B) (reply : R × ℕ × P2PRetMsg) : Prop :=
  ∃ get, run.gets reply.1 = some get ∧ ∀ n, reply.2.2 = .numHitChunks n →
    get.phase.live = true → ∀ e ∈ (get.keys.zip get.memObjs).take n, run.Chunk e

structure Frame (ended : R → Prop) (run run' : P2PRun P R K A B) : Prop where
  gets : ∀ lookupId get, run.gets lookupId = some get → ∃ get',
    run'.gets lookupId = some get' ∧ get'.keys = get.keys ∧ get'.memObjs = get.memObjs ∧
      (get'.phase.live = true → get.phase.live = true) ∧
      (get.phase.live = true → ¬ ended lookupId → get'.phase.live = true)
  stored : run.stored ⊆ run'.stored
  chunk : ∀ lookupId get, run.gets lookupId = some get → get.phase.live = true →
    ∀ e ∈ get.keys.zip get.memObjs, run.Chunk e → run'.Chunk e

variable {ended : R → Prop} {msg : BatchedLookupAndGetMsg R K A}

theorem Frame.backed (h : Frame ended run run') (hmsg : ¬ ended msg.lookupId)
    (hbacked : run.Backed msg) : run'.Backed msg := by
  obtain ⟨get, hget, hlive, hkeys, hobjs⟩ := hbacked
  obtain ⟨get', hget', hkeys', hobjs', _, hlive'⟩ := h.gets msg.lookupId get hget
  exact ⟨get', hget', hlive' hlive hmsg, hkeys'.trans hkeys, hobjs'.trans hobjs⟩

theorem Frame.transfers (h : Frame ended run run') (hbacked : run.Backed msg) {numHitChunks : ℕ}
    {pages : List (A × B)} (htransfers : run.Transfers msg numHitChunks pages) :
    run'.Transfers msg numHitChunks pages := by
  obtain ⟨get, hget, hlive, hkeys, hobjs⟩ := hbacked
  refine ⟨fun e he => (htransfers.1 e he).imp_left fun hchunk => ?_, fun page hpage => ?_⟩
  · refine h.chunk msg.lookupId get hget hlive e ?_ hchunk
    rw [hkeys, hobjs]
    exact mem_of_mem_take he
  · obtain ⟨key, hmem, hstored⟩ := htransfers.2 page hpage
    exact ⟨key, hmem, h.stored hstored⟩

variable {serving : P2PServing R K A B}

theorem Frame.serves (h : Frame ended run run')
    (hmsg : ∀ msg, serving.msg? = some msg → ¬ ended msg.lookupId) (hserves : run.Serves serving) :
    run'.Serves serving := by
  cases serving with
  | idle => trivial
  | received msg => exact h.backed (hmsg msg rfl) hserves
  | transferring msg n pages =>
    exact ⟨h.backed (hmsg msg rfl) hserves.1, h.transfers hserves.1 hserves.2⟩

theorem Frame.replied (h : Frame ended run run') {reply : R × ℕ × P2PRetMsg}
    (hreplied : run.Replied reply) : run'.Replied reply := by
  obtain ⟨get, hget, hchunks⟩ := hreplied
  obtain ⟨get', hget', hkeys, hobjs, hlive, _⟩ := h.gets reply.1 get hget
  refine ⟨get', hget', fun n hn hlive' e he => ?_⟩
  rw [hkeys, hobjs] at he
  exact h.chunk reply.1 get hget (hlive hlive') e (mem_of_mem_take he)
    (hchunks n hn (hlive hlive') e he)

theorem Frame.of_gets (hgets : run'.gets = run.gets) (hstored : run.stored ⊆ run'.stored)
    (hchunk : ∀ lookupId get, run.gets lookupId = some get → get.phase.live = true →
      ∀ e ∈ get.keys.zip get.memObjs, run.Chunk e → run'.Chunk e) :
    Frame ended run run' :=
  ⟨fun _ get hget => ⟨get, hgets ▸ hget, rfl, rfl, id, fun hlive _ => hlive⟩, hstored, hchunk⟩

variable [DecidableEq R] {lookupId : R}

theorem Frame.of_update {get get' : P2PGet P K A}
    (hgets : run'.gets = update run.gets lookupId (some get')) (hold : run.gets lookupId = some get)
    (hkeys : get'.keys = get.keys) (hobjs : get'.memObjs = get.memObjs)
    (hback : get'.phase.live = true → get.phase.live = true)
    (hlive : get.phase.live = true → ¬ ended lookupId → get'.phase.live = true)
    (hstored : run'.stored = run.stored) (hmemory : run'.memory = run.memory) :
    Frame ended run run' := by
  have hchunk : ∀ e, run.Chunk e → run'.Chunk e := by
    intro e he
    rwa [Chunk, hstored, hmemory]
  refine ⟨fun other found hfound => ?_, hstored ▸ List.Subset.refl _, fun _ _ _ _ e _ => hchunk e⟩
  rw [hgets]
  by_cases heq : other = lookupId
  · subst heq
    obtain rfl := some.inj (hold.symm.trans hfound)
    exact ⟨get', update_self _ _ _, hkeys, hobjs, hback, hlive⟩
  · exact ⟨found, (update_of_ne heq _ _).trans hfound, rfl, rfl, id, fun h _ => h⟩

variable {get : P2PGet P K A}

theorem Frame.of_new (hgets : run'.gets = update run.gets lookupId (some get))
    (hnew : run.gets lookupId = none) (hstored : run'.stored = run.stored)
    (hmemory : run'.memory = run.memory) : Frame ended run run' := by
  have hchunk : ∀ e, run.Chunk e → run'.Chunk e := by
    intro e he
    rwa [Chunk, hstored, hmemory]
  refine ⟨fun other found hfound => ?_, hstored ▸ List.Subset.refl _, fun _ _ _ _ e _ => hchunk e⟩
  have hne : other ≠ lookupId := by
    rintro rfl
    rw [hnew] at hfound
    cases hfound
  rw [hgets]
  exact ⟨found, (update_of_ne hne _ _).trans hfound, rfl, rfl, id, fun h _ => h⟩

variable [DecidableEq A]

def Released (run : P2PRun P R K A B) (lookupId : R) (get : P2PGet P K A) : Prop :=
  match get.phase with
  | .done n => ∀ addr,
      run.released.count (lookupId, addr) = if addr ∈ get.memObjs.drop n then 1 else 0
  | .raised => False
  | _ => ∀ addr, run.released.count (lookupId, addr) = 0

structure Inv (run : P2PRun P R K A B) : Prop where
  nodup : ∀ lookupId get, run.gets lookupId = some get → get.memObjs.Nodup
  held : ∀ lookupId get, run.gets lookupId = some get → get.phase.live = true →
    ∀ addr ∈ get.memObjs, run.holders addr = .request lookupId
  released : ∀ lookupId get, run.gets lookupId = some get → run.Released lookupId get
  unknown : ∀ lookupId, run.gets lookupId = none → ∀ addr, run.released.count (lookupId, addr) = 0
  network : ∀ e ∈ run.network, run.Backed e.2
  serving : ∀ peer, run.Serves (run.peers peer).serving
  replies : ∀ reply ∈ run.replies, run.Replied reply
  caches : ∀ peer key obj, (run.peers peer).hotCache key = some obj → (key, obj) ∈ run.stored
  returned : ∀ e ∈ run.returned, e ∈ run.stored

def Quiet (run : P2PRun P R K A B) (lookupId : R) : Prop :=
  (∀ e ∈ run.network, e.2.lookupId ≠ lookupId) ∧
    ∀ peer msg, (run.peers peer).serving.msg? = some msg → msg.lookupId ≠ lookupId

theorem released_of_live (hlive : get.phase.live = true) (lookupId : R) :
    run.Released lookupId get ↔ ∀ addr, run.released.count (lookupId, addr) = 0 := by
  rw [Released]
  cases hphase : get.phase with
  | done n => simp [hphase, P2PGetPhase.live] at hlive
  | raised => simp [hphase, P2PGetPhase.live] at hlive
  | _ => exact Iff.rfl

theorem Inv.setGet (h : run.Inv) (get' : P2PGet P K A) (hget : run.gets lookupId = some get)
    (hkeys : get'.keys = get.keys) (hobjs : get'.memObjs = get.memObjs)
    (hlive : get.phase.live = true) (hlive' : get'.phase.live = true) :
    (run.setGet lookupId get').Inv := by
  have hframe : Frame (fun _ => False) run (run.setGet lookupId get') :=
    .of_update rfl hget hkeys hobjs (fun _ => hlive) (fun _ _ => hlive') rfl rfl
  refine ⟨fun other found hfound => ?_, fun other found hfound hfoundLive => ?_,
    fun other found hfound => ?_, fun other hnone => ?_,
    fun e he => hframe.backed id (h.network e he),
    fun peer => hframe.serves (fun _ _ => id) (h.serving peer),
    fun reply hreply => hframe.replied (h.replies reply hreply), h.caches, h.returned⟩
  · rcases update_eq_some hfound with ⟨rfl, rfl⟩ | ⟨_, hold⟩
    · exact hobjs ▸ h.nodup other get hget
    · exact h.nodup other found hold
  · rcases update_eq_some hfound with ⟨rfl, rfl⟩ | ⟨_, hold⟩
    · exact hobjs ▸ h.held other get hget hlive
    · exact h.held other found hold hfoundLive
  · rcases update_eq_some hfound with ⟨rfl, rfl⟩ | ⟨_, hold⟩
    · have hnone := (released_of_live hlive _).mp (h.released other get hget)
      exact (released_of_live hlive' _).mpr hnone
    · exact h.released other found hold
  · exact h.unknown other (update_eq_none hnone).2

variable {memObjs : List A}

theorem count_released (run : P2PRun P R K A B) (lookupId other : R) (addr : A)
    (hnodup : memObjs.Nodup) :
    (run.released ++ memObjs.map (fun addr => (lookupId, addr))).count (other, addr) =
      run.released.count (other, addr) +
        if other = lookupId ∧ addr ∈ memObjs then 1 else 0 := by
  have hmap : (memObjs.map (fun addr => (lookupId, addr))).Nodup :=
    hnodup.map fun a b heq => (Prod.mk.inj heq).2
  rw [count_append, hmap.count]
  congr 2
  simp [eq_comm, and_comm]

theorem Inv.finish (h : run.Inv) (hget : run.gets lookupId = some get)
    (hlive : get.phase.live = true) (hquiet : run.Quiet lookupId) {n : ℕ}
    (hchunks : ∀ e ∈ (get.keys.zip get.memObjs).take n, run.Chunk e) :
    (run.finish lookupId get n).Inv := by
  have hframe : Frame (fun other => other = lookupId) run (run.finish lookupId get n) :=
    .of_update rfl hget rfl rfl (fun _ => hlive) (fun _ hne => absurd rfl hne) rfl rfl
  have hnodup := h.nodup lookupId get hget
  have hdrop : (get.memObjs.drop n).Nodup := hnodup.sublist (drop_sublist n _)
  have hcount : ∀ other addr, (run.finish lookupId get n).released.count (other, addr) = _ :=
    fun other addr => count_released run lookupId other addr hdrop
  refine ⟨fun other found hfound => ?_, fun other found hfound hfoundLive addr haddr => ?_,
    fun other found hfound => ?_, fun other hnone addr => ?_,
    fun e he => hframe.backed (hquiet.1 e he) (h.network e he),
    fun peer => hframe.serves (hquiet.2 peer) (h.serving peer),
    fun reply hreply => hframe.replied (h.replies reply hreply), h.caches, fun e he => ?_⟩
  · rcases update_eq_some hfound with ⟨rfl, rfl⟩ | ⟨_, hold⟩
    · exact hnodup
    · exact h.nodup other found hold
  · rcases update_eq_some hfound with ⟨rfl, rfl⟩ | ⟨hne, hold⟩
    · cases hfoundLive
    · have hheld := h.held other found hold hfoundLive addr haddr
      have hnotMem : addr ∉ get.memObjs := by
        intro hmem
        rw [h.held lookupId get hget hlive addr hmem] at hheld
        exact hne (P2PHolder.request.inj hheld).symm
      dsimp only [P2PRun.finish]
      rw [if_neg fun hmem => hnotMem (mem_of_mem_take hmem),
        if_neg fun hmem => hnotMem (mem_of_mem_drop hmem)]
      exact hheld
  · rcases update_eq_some hfound with ⟨rfl, rfl⟩ | ⟨hne, hold⟩
    · intro addr
      rw [hcount, (released_of_live hlive _).mp (h.released other get hget), Nat.zero_add]
      simp
    · have hsame : ∀ addr, (run.finish lookupId get n).released.count (other, addr) =
          run.released.count (other, addr) := by
        intro addr
        rw [hcount, if_neg fun hmem => hne hmem.1, Nat.add_zero]
      have hreleased := h.released other found hold
      rw [Released] at hreleased ⊢
      simp only [hsame]
      exact hreleased
  · obtain ⟨hne, hold⟩ := update_eq_none hnone
    rw [hcount, if_neg fun hmem => hne hmem.1, h.unknown other hold]
  · rcases mem_append.mp he with hold | hnew
    · exact h.returned e hold
    · obtain ⟨pair, hpair, rfl⟩ := mem_map.mp hnew
      exact hchunks pair hpair

theorem Inv.hold (h : run.Inv) (hnew : run.gets lookupId = none) (hnodup : get.memObjs.Nodup)
    (hfree : ∀ addr ∈ get.memObjs, run.holders addr = .free) (hlive : get.phase.live = true) :
    (run.hold lookupId get).Inv := by
  have hframe : Frame (fun _ => False) run (run.hold lookupId get) := .of_new rfl hnew rfl rfl
  refine ⟨fun other found hfound => ?_, fun other found hfound hfoundLive addr haddr => ?_,
    fun other found hfound => ?_, fun other hnone => ?_,
    fun e he => hframe.backed id (h.network e he),
    fun peer => hframe.serves (fun _ _ => id) (h.serving peer),
    fun reply hreply => hframe.replied (h.replies reply hreply), h.caches, h.returned⟩
  · rcases update_eq_some hfound with ⟨rfl, rfl⟩ | ⟨_, hold⟩
    · exact hnodup
    · exact h.nodup other found hold
  · dsimp only [P2PRun.hold]
    rcases update_eq_some hfound with ⟨rfl, rfl⟩ | ⟨_, hold⟩
    · exact if_pos haddr
    · have hheld := h.held other found hold hfoundLive addr haddr
      have hnotMem : addr ∉ get.memObjs := by
        intro hmem
        rw [hfree addr hmem] at hheld
        cases hheld
      rw [if_neg hnotMem]
      exact hheld
  · rcases update_eq_some hfound with ⟨rfl, rfl⟩ | ⟨_, hold⟩
    · exact (released_of_live hlive _).mpr (h.unknown other hnew)
    · exact h.released other found hold
  · exact h.unknown other (update_eq_none hnone).2

theorem Inv.start (h : run.Inv) {maxRetryCount : ℕ} (hpos : 0 < maxRetryCount) (lookupId : R)
    (targetPeer : P) (keys : List K) (memObjs : List A) :
    (run.start maxRetryCount lookupId targetPeer keys memObjs).Inv := by
  rw [P2PRun.start, if_neg (Nat.ne_of_gt hpos)]
  split_ifs with hguard
  · exact h.hold hguard.1 hguard.2.1 hguard.2.2.2 rfl
  · exact h

theorem Inv.setNetwork (h : run.Inv) {network : List (P × BatchedLookupAndGetMsg R K A)}
    (hnetwork : ∀ e ∈ network, run.Backed e.2) : ({ run with network := network }).Inv :=
  ⟨h.nodup, h.held, h.released, h.unknown, hnetwork, h.serving, h.replies, h.caches, h.returned⟩

theorem Inv.setReplies (h : run.Inv) {replies : List (R × ℕ × P2PRetMsg)}
    (hreplies : ∀ reply ∈ replies, run.Replied reply) : ({ run with replies := replies }).Inv :=
  ⟨h.nodup, h.held, h.released, h.unknown, h.network, h.serving, hreplies, h.caches, h.returned⟩

theorem Inv.dropReply (h : run.Inv) (i : ℕ) :
    ({ run with replies := run.replies.eraseIdx i }).Inv :=
  h.setReplies fun reply hreply => h.replies reply (mem_of_mem_eraseIdx hreply)

theorem Inv.dropMsg (h : run.Inv) (i : ℕ) : ({ run with network := run.network.eraseIdx i }).Inv :=
  h.setNetwork fun e he => h.network e (mem_of_mem_eraseIdx he)

variable {addr : A}

omit [DecidableEq A] in
theorem key_unique {keys : List K} (hnodup : memObjs.Nodup) {key key' : K}
    (h : (key, addr) ∈ keys.zip memObjs) (h' : (key', addr) ∈ keys.zip memObjs) :
    key = key' := by
  induction keys generalizing memObjs with
  | nil => simp at h
  | cons first keys ih =>
    cases memObjs with
    | nil => simp at h
    | cons a memObjs =>
      obtain ⟨hnotMem, hrest⟩ := nodup_cons.mp hnodup
      rw [zip_cons_cons, mem_cons] at h h'
      rcases h with heq | h
      · obtain ⟨rfl, rfl⟩ := Prod.mk.inj heq
        rcases h' with heq' | h'
        · exact (Prod.mk.inj heq').1.symm
        · exact absurd (of_mem_zip h').2 hnotMem
      · rcases h' with heq' | h'
        · obtain ⟨rfl, rfl⟩ := Prod.mk.inj heq'
          exact absurd (of_mem_zip h).2 hnotMem
        · exact ih hrest h h'

theorem Inv.overwrite (h : run.Inv) {bytes : B}
    (hchunk : ∀ lookupId get, run.gets lookupId = some get → get.phase.live = true →
      ∀ key, (key, addr) ∈ get.keys.zip get.memObjs → (key, bytes) ∈ run.stored) :
    Frame (fun _ => False) run { run with memory := update run.memory addr bytes } ∧
      ({ run with memory := update run.memory addr bytes }).Inv := by
  have hframe : Frame (fun _ => False) run
      { run with memory := update run.memory addr bytes } := by
    refine .of_gets rfl (List.Subset.refl _) fun lookupId get hget hlive e he hold => ?_
    rw [Chunk]
    dsimp only
    by_cases heq : e.2 = addr
    · rw [heq, update_self]
      exact hchunk lookupId get hget hlive e.1 (heq ▸ he)
    · rw [update_of_ne heq]
      exact hold
  exact ⟨hframe, h.nodup, h.held, h.released, h.unknown,
    fun e he => hframe.backed id (h.network e he),
    fun peer => hframe.serves (fun _ _ => id) (h.serving peer),
    fun reply hreply => hframe.replied (h.replies reply hreply), h.caches, h.returned⟩

theorem Inv.setMemory (h : run.Inv) (hother : ∀ lookupId, run.holders addr ≠ .request lookupId)
    (bytes : B) :
    ({ run with memory := update run.memory addr bytes }).Inv := by
  refine (h.overwrite fun lookupId get hget hlive key hkey => ?_).2
  exact absurd (h.held lookupId get hget hlive addr (of_mem_zip hkey).2) (hother lookupId)

theorem Inv.setHolder (h : run.Inv) (hother : ∀ lookupId, run.holders addr ≠ .request lookupId)
    (holder : P2PHolder R) :
    ({ run with holders := update run.holders addr holder }).Inv := by
  refine ⟨h.nodup, fun lookupId get hget hlive a ha => ?_, h.released, h.unknown, h.network,
    h.serving, h.replies, h.caches, h.returned⟩
  have hheld := h.held lookupId get hget hlive a ha
  have hne : a ≠ addr := by
    rintro rfl
    exact hother lookupId hheld
  dsimp only
  rw [update_of_ne hne]
  exact hheld

theorem Inv.store (h : run.Inv) (entry : K × B) :
    ({ run with stored := run.stored ++ [entry] }).Inv := by
  have hsub : run.stored ⊆ run.stored ++ [entry] := subset_append_left _ _
  have hframe : Frame (fun _ => False) run { run with stored := run.stored ++ [entry] } :=
    .of_gets rfl hsub fun _ _ _ _ e _ hchunk => hsub hchunk
  exact ⟨h.nodup, h.held, h.released, h.unknown, fun e he => hframe.backed id (h.network e he),
    fun peer => hframe.serves (fun _ _ => id) (h.serving peer),
    fun reply hreply => hframe.replied (h.replies reply hreply),
    fun peer key obj hobj => hsub (h.caches peer key obj hobj), fun e he => hsub (h.returned e he)⟩

def WritesHeld (run : P2PRun P R K A B) : P2PEvent P R K A B → Prop
  | .write peer page => ∀ msg n pages target, (run.peers peer).serving = .transferring msg n pages →
      pages[page]? = some target → run.holders target.1 = .request msg.lookupId
  | _ => True

theorem Inv.writesHeld (h : run.Inv) (event : P2PEvent P R K A B) : run.WritesHeld event := by
  cases event with
  | write peer page =>
    intro msg n pages target hserving hpage
    have hserves : run.Serves (.transferring msg n pages) := hserving ▸ h.serving peer
    obtain ⟨⟨get, hget, hlive, _, hobjs⟩, htransfers⟩ := hserves
    obtain ⟨key, hkey, _⟩ := htransfers.2 target (mem_of_getElem? hpage)
    exact h.held msg.lookupId get hget hlive target.1 (hobjs ▸ (of_mem_zip hkey).2)
  | _ => trivial

theorem inv_init (memory : A → B) : (init memory : P2PRun P R K A B).Inv := by
  refine ⟨fun _ _ hget => ?_, fun _ _ hget => ?_, fun _ _ hget => ?_, fun _ _ _ => rfl,
    fun _ he => absurd he not_mem_nil, fun _ => trivial,
    fun _ he => absurd he not_mem_nil, fun _ _ _ hobj => ?_,
    fun _ he => absurd he not_mem_nil⟩
  · cases hget
  · cases hget
  · cases hget
  · cases hobj

variable {phase : P2PGetPhase}

omit [DecidableEq R] [DecidableEq A] in
theorem getIn_eq_some (h : run.getIn lookupId phase = some get) :
    run.gets lookupId = some get ∧ get.phase = phase := by
  obtain ⟨hget, hphase⟩ := filter_eq_some_iff.mp h
  exact ⟨hget, of_decide_eq_true hphase⟩

variable {attempt : ℕ}

omit [DecidableEq R] [DecidableEq A] in
theorem awaiting_eq_some (h : run.awaiting lookupId attempt = some get) :
    run.gets lookupId = some get ∧ get.phase = .waiting :=
  getIn_eq_some (filter_eq_some_iff.mp h).1

theorem Inv.setPhase (h : run.Inv) (hget : run.gets lookupId = some get)
    (hlive : get.phase.live = true) (hphase : phase.live = true) :
    (run.setPhase lookupId get phase).Inv :=
  h.setGet { get with phase := phase } hget rfl rfl hlive hphase

theorem Inv.finishNone (h : run.Inv) (hget : run.gets lookupId = some get)
    (hlive : get.phase.live = true) (hquiet : run.Quiet lookupId) :
    (run.finish lookupId get 0).Inv :=
  h.finish hget hlive hquiet fun _ he => absurd he not_mem_nil

theorem Inv.send (h : run.Inv) (lookupId : R) : (run.send lookupId).Inv := by
  rw [P2PRun.send]
  cases hready : run.getIn lookupId .ready with
  | none => exact h
  | some get =>
    obtain ⟨hget, hphase⟩ := getIn_eq_some hready
    have hsent := h.setGet { get with retryCount := get.retryCount + 1, phase := .waiting } hget
      rfl rfl (hphase ▸ rfl) rfl
    refine hsent.setNetwork fun e he => ?_
    rcases mem_append.mp he with hold | hnew
    · exact hsent.network e hold
    · rw [mem_singleton.mp hnew]
      exact ⟨_, update_self _ _ _, rfl, rfl, rfl⟩

theorem Inv.sendFails (h : run.Inv) (lookupId : R) : (run.sendFails lookupId).Inv := by
  rw [P2PRun.sendFails]
  cases hready : run.getIn lookupId .ready with
  | none => exact h
  | some get =>
    obtain ⟨hget, hphase⟩ := getIn_eq_some hready
    exact h.setGet _ hget rfl rfl (hphase ▸ rfl) rfl

theorem Inv.timeout (h : run.Inv) (lookupId : R) : (run.timeout lookupId).Inv := by
  rw [P2PRun.timeout]
  cases hwaiting : run.getIn lookupId .waiting with
  | none => exact h
  | some get =>
    obtain ⟨hget, hphase⟩ := getIn_eq_some hwaiting
    exact h.setPhase hget (hphase ▸ rfl) rfl

variable {ret : P2PRetMsg}

theorem Inv.receive (h : run.Inv) (hreplied : run.Replied (lookupId, attempt, ret))
    (hquiet : (run.awaiting lookupId attempt).isSome → ret ≠ .remoteXferHandlerNotInitialized →
      run.Quiet lookupId) : (run.receive lookupId attempt ret).Inv := by
  rw [P2PRun.receive]
  cases hwaiting : run.awaiting lookupId attempt with
  | none => exact h
  | some get =>
    obtain ⟨hget, hphase⟩ := awaiting_eq_some hwaiting
    have hlive : get.phase.live = true := hphase ▸ rfl
    have hquiet' : ret ≠ .remoteXferHandlerNotInitialized → run.Quiet lookupId :=
      hquiet (hwaiting ▸ rfl)
    cases ret with
    | numHitChunks n =>
      obtain ⟨found, hfound, hchunks⟩ := hreplied
      obtain rfl := some.inj (hget.symm.trans hfound)
      exact h.finish hget hlive (hquiet' (by simp)) (hchunks n rfl hlive)
    | serverError => exact h.finishNone hget hlive (hquiet' (by simp))
    | remoteXferHandlerNotInitialized => exact h.setPhase hget hlive rfl

theorem Inv.receiveFails (h : run.Inv)
    (hquiet : (run.awaiting lookupId attempt).isSome → run.Quiet lookupId) :
    (run.receiveFails lookupId attempt).Inv := by
  rw [P2PRun.receiveFails]
  cases hwaiting : run.awaiting lookupId attempt with
  | none => exact h
  | some get =>
    obtain ⟨hget, hphase⟩ := awaiting_eq_some hwaiting
    exact h.finishNone hget (hphase ▸ rfl) (hquiet (hwaiting ▸ rfl))

theorem Inv.reconnected (h : run.Inv) (maxRetryCount : ℕ)
    (hquiet : ∀ get, run.gets lookupId = some get →
      (get.phase = .uninitialized ∨ get.phase = .timedOut) → maxRetryCount ≤ get.retryCount →
        run.Quiet lookupId) : (run.reconnected maxRetryCount lookupId).Inv := by
  rw [P2PRun.reconnected]
  cases hget : run.gets lookupId with
  | none => exact h
  | some get =>
    dsimp only
    split_ifs with hphase hcount
    · exact h.setPhase hget (by rcases hphase with hp | hp <;> rw [hp] <;> rfl) rfl
    · exact h.finishNone hget (by rcases hphase with hp | hp <;> rw [hp] <;> rfl)
        (hquiet get hget hphase (Nat.le_of_not_lt hcount))
    · exact h

theorem Inv.reconnectFails (h : run.Inv) {zmqError : Bool}
    (hquiet : ∀ get, run.gets lookupId = some get → get.phase ≠ .timedOut ∧
      (get.phase = .uninitialized → zmqError = false → run.Quiet lookupId)) :
    (run.reconnectFails lookupId zmqError).Inv := by
  rw [P2PRun.reconnectFails]
  cases hget : run.gets lookupId with
  | none => exact h
  | some get =>
    dsimp only
    split_ifs with hphase hzmq htimedOut
    · exact h.setPhase hget (hphase ▸ rfl) rfl
    · exact h.finishNone hget (hphase ▸ rfl)
        ((hquiet get hget).2 hphase (Bool.eq_false_iff.mpr hzmq))
    · exact absurd htimedOut (hquiet get hget).1
    · exact h

variable [DecidableEq P]

theorem Inv.setPeer (h : run.Inv) {peer : P} {state : P2PPeer R K A B}
    (hserves : run.Serves state.serving)
    (hcache : ∀ key obj, state.hotCache key = some obj → (key, obj) ∈ run.stored) :
    (run.setPeer peer state).Inv := by
  refine ⟨h.nodup, h.held, h.released, h.unknown, h.network, fun other => ?_, h.replies,
    fun other key obj hobj => ?_, h.returned⟩
  · dsimp only [P2PRun.setPeer]
    by_cases heq : other = peer
    · rw [heq, update_self]
      exact hserves
    · rw [update_of_ne heq]
      exact h.serving other
  · dsimp only [P2PRun.setPeer] at hobj
    by_cases heq : other = peer
    · rw [heq, update_self] at hobj
      exact hcache key obj hobj
    · rw [update_of_ne heq] at hobj
      exact h.caches other key obj hobj

theorem Inv.setServing (h : run.Inv) (peer : P) (hserves : run.Serves serving) :
    (run.setServing peer serving).Inv :=
  h.setPeer hserves (h.caches peer)

theorem Inv.answered (h : run.Inv) (peer : P) (hbacked : run.Backed msg)
    (hchunks : ∀ n, ret = .numHitChunks n →
      ∀ e ∈ (msg.keys.zip msg.memIndexes).take n, run.Chunk e) :
    ((run.setServing peer .idle).reply msg ret).Inv := by
  have hidle : (run.setServing peer .idle).Inv := h.setServing peer trivial
  refine hidle.setReplies fun reply hreply => ?_
  rcases mem_append.mp hreply with hold | hnew
  · exact hidle.replies reply hold
  · rw [mem_singleton.mp hnew]
    obtain ⟨get, hget, _, hkeys, hobjs⟩ := hbacked
    refine ⟨get, hget, fun n hn _ e he => hchunks n hn e ?_⟩
    rwa [← hkeys, ← hobjs]

theorem Inv.write (h : run.Inv) (peer : P) (page : ℕ) : (run.write peer page).Inv := by
  rw [P2PRun.write]
  cases hserving : (run.peers peer).serving with
  | idle => exact h
  | received msg => exact h
  | transferring msg n pages =>
    dsimp only
    cases hpage : pages[page]? with
    | none => exact h
    | some target =>
      obtain ⟨addr, bytes⟩ := target
      have hserves : run.Serves (.transferring msg n pages) := hserving ▸ h.serving peer
      obtain ⟨hbacked, htransfers⟩ := hserves
      obtain ⟨get, hget, hlive, hkeys, hobjs⟩ := id hbacked
      obtain ⟨key, hkey, hstored⟩ := htransfers.2 _ (mem_of_getElem? hpage)
      have hchunk : ∀ other found, run.gets other = some found → found.phase.live = true →
          ∀ key', (key', addr) ∈ found.keys.zip found.memObjs → (key', bytes) ∈ run.stored := by
        intro other found hfound hfoundLive key' hkey'
        have hmem : addr ∈ get.memObjs := hobjs ▸ (of_mem_zip hkey).2
        have hheld := h.held msg.lookupId get hget hlive addr hmem
        rw [h.held other found hfound hfoundLive addr (of_mem_zip hkey').2] at hheld
        obtain rfl := P2PHolder.request.inj hheld
        obtain rfl := some.inj (hget.symm.trans hfound)
        rw [← hkeys, ← hobjs] at hkey
        exact key_unique (h.nodup msg.lookupId get hget) hkey hkey' ▸ hstored
      obtain ⟨hframe, hwritten⟩ := h.overwrite hchunk
      have hzip : ∀ e ∈ (msg.keys.zip msg.memIndexes).take n, e ∈ get.keys.zip get.memObjs := by
        intro e he
        rw [hkeys, hobjs]
        exact mem_of_mem_take he
      refine hwritten.setServing peer ⟨hframe.backed id hbacked, fun e he => ?_, fun q hq => ?_⟩
      · rcases htransfers.1 e he with hold | ⟨bytes', hmem⟩
        · exact .inl (hframe.chunk msg.lookupId get hget hlive e (hzip e he) hold)
        · obtain ⟨hlt, hfirst⟩ := List.getElem?_eq_some_iff.mp hpage
          have hsplit := (getElem_cons_eraseIdx_perm hlt).mem_iff.mpr hmem
          rw [hfirst, mem_cons] at hsplit
          rcases hsplit with heq | hrest
          · have haddr : e.2 = addr := (Prod.mk.inj heq).1
            refine .inl ?_
            rw [Chunk, haddr]
            dsimp only
            rw [update_self]
            exact hchunk msg.lookupId get hget hlive e.1 (haddr ▸ hzip e he)
          · exact .inr ⟨bytes', hrest⟩
      · exact htransfers.2 q (mem_of_mem_eraseIdx hq)

theorem Inv.lookup (h : run.Inv) (peer : P) : (run.lookup peer).Inv := by
  rw [P2PRun.lookup]
  cases hserving : (run.peers peer).serving with
  | idle => exact h
  | transferring msg n pages => exact h
  | received msg =>
    have hbacked : run.Serves (.received msg) := hserving ▸ h.serving peer
    dsimp only
    split_ifs
    · exact h.answered peer hbacked fun n hn => (by cases hn)
    · exact h.setServing peer ⟨hbacked, fun e he => .inr (mem_take_hitObjs he),
        fun page hpage => mem_zip_hitObjs (h.caches peer) hpage⟩

theorem Inv.answer (h : run.Inv) (peer : P) : (run.answer peer).Inv := by
  rw [P2PRun.answer]
  cases hserving : (run.peers peer).serving with
  | idle => exact h
  | received msg => exact h
  | transferring msg n pages =>
    cases pages with
    | cons page pages => exact h
    | nil =>
      have hserves : run.Serves (.transferring msg n []) := hserving ▸ h.serving peer
      refine h.answered peer hserves.1 fun m hm e he => ?_
      obtain rfl := P2PRetMsg.numHitChunks.inj hm
      exact (hserves.2.1 e he).resolve_right fun ⟨_, hmem⟩ => not_mem_nil hmem

omit [DecidableEq P] [DecidableEq R] [DecidableEq A] in
theorem backed_of_serves (hmsg : serving.msg? = some msg) (hserves : run.Serves serving) :
    run.Backed msg := by
  cases serving with
  | idle => cases hmsg
  | received m =>
    obtain rfl := some.inj hmsg
    exact hserves
  | transferring m n pages =>
    obtain rfl := some.inj hmsg
    exact hserves.1

variable [DecidableEq K]

def Timely (maxRetryCount : ℕ) (run : P2PRun P R K A B) : P2PEvent P R K A B → Prop
  | .start _ _ _ _ => 0 < maxRetryCount
  | .receive i => ∀ lookupId attempt ret, run.replies[i]? = some (lookupId, attempt, ret) →
      (run.awaiting lookupId attempt).isSome → ret ≠ .remoteXferHandlerNotInitialized →
        run.Quiet lookupId
  | .receiveFails i => ∀ lookupId attempt ret, run.replies[i]? = some (lookupId, attempt, ret) →
      (run.awaiting lookupId attempt).isSome → run.Quiet lookupId
  | .reconnected lookupId => ∀ get, run.gets lookupId = some get →
      (get.phase = .uninitialized ∨ get.phase = .timedOut) → maxRetryCount ≤ get.retryCount →
        run.Quiet lookupId
  | .reconnectFails lookupId zmqError => ∀ get, run.gets lookupId = some get →
      get.phase ≠ .timedOut ∧ (get.phase = .uninitialized → zmqError = false → run.Quiet lookupId)
  | _ => True

theorem Inv.cache (h : run.Inv) (peer : P) (key : K) (obj : B) :
    ({ run.setPeer peer { run.peers peer with
        hotCache := update (run.peers peer).hotCache key (some obj) } with
      stored := run.stored ++ [(key, obj)] }).Inv := by
  have hstored := h.store (key, obj)
  refine hstored.setPeer (hstored.serving peer) fun other found hfound => ?_
  dsimp only at hfound
  by_cases heq : other = key
  · rw [heq, update_self] at hfound
    rw [heq, ← some.inj hfound]
    exact mem_append_right _ (mem_singleton_self _)
  · rw [update_of_ne heq] at hfound
    exact hstored.caches peer other found hfound

theorem Inv.evict (h : run.Inv) (peer : P) (key : K) :
    (run.setPeer peer { run.peers peer with
      hotCache := update (run.peers peer).hotCache key none }).Inv := by
  refine h.setPeer (h.serving peer) fun other found hfound => ?_
  dsimp only at hfound
  have hne : other ≠ key := by
    rintro rfl
    rw [update_self] at hfound
    cases hfound
  rw [update_of_ne hne] at hfound
  exact h.caches peer other found hfound

theorem Inv.exec (h : run.Inv) (maxRetryCount : ℕ) (event : P2PEvent P R K A B)
    (htimely : run.Timely maxRetryCount event) : (run.exec maxRetryCount event).Inv := by
  cases event with
  | start lookupId targetPeer keys memObjs => exact h.start htimely lookupId targetPeer keys memObjs
  | send lookupId => exact h.send lookupId
  | sendFails lookupId => exact h.sendFails lookupId
  | timeout lookupId => exact h.timeout lookupId
  | receive i =>
    dsimp only [P2PRun.exec]
    cases hreply : run.replies[i]? with
    | none => exact h
    | some reply =>
      obtain ⟨lookupId, attempt, ret⟩ := reply
      exact (h.dropReply i).receive (h.replies _ (mem_of_getElem? hreply))
        (htimely lookupId attempt ret hreply)
  | receiveFails i =>
    dsimp only [P2PRun.exec]
    cases hreply : run.replies[i]? with
    | none => exact h
    | some reply =>
      obtain ⟨lookupId, attempt, ret⟩ := reply
      exact (h.dropReply i).receiveFails (htimely lookupId attempt ret hreply)
  | reconnected lookupId => exact h.reconnected maxRetryCount htimely
  | reconnectFails lookupId zmqError => exact h.reconnectFails htimely
  | deliver i =>
    dsimp only [P2PRun.exec]
    cases hmsg : run.network[i]? with
    | none => exact h
    | some entry =>
      obtain ⟨peer, msg⟩ := entry
      dsimp only
      split
      · exact (h.dropMsg i).setServing peer (h.network _ (mem_of_getElem? hmsg))
      · exact h
  | loseMsg i => exact h.dropMsg i
  | loseReply i => exact h.dropReply i
  | refuse peer =>
    dsimp only [P2PRun.exec]
    cases hserving : (run.peers peer).serving with
    | idle => exact h
    | transferring msg n pages => exact h
    | received msg =>
      have hbacked : run.Serves (.received msg) := hserving ▸ h.serving peer
      exact h.answered peer hbacked fun n hn => (by cases hn)
  | lookup peer => exact h.lookup peer
  | write peer page => exact h.write peer page
  | answer peer => exact h.answer peer
  | fail peer =>
    dsimp only [P2PRun.exec]
    cases hmsg : (run.peers peer).serving.msg? with
    | none => exact h
    | some msg =>
      exact h.answered peer (backed_of_serves hmsg (h.serving peer)) fun n hn => (by cases hn)
  | crash peer => exact h.setServing peer trivial
  | cache peer key obj => exact h.cache peer key obj
  | evict peer key => exact h.evict peer key
  | allocate addr bytes =>
    dsimp only [P2PRun.exec]
    split_ifs with hfree
    · have hother : ∀ lookupId, run.holders addr ≠ .request lookupId := by simp [hfree]
      exact (h.setMemory hother bytes).setHolder hother .client
    · exact h
  | overwrite addr bytes =>
    dsimp only [P2PRun.exec]
    split_ifs with hclient
    · exact h.setMemory (by simp [hclient]) bytes
    · exact h
  | free addr =>
    dsimp only [P2PRun.exec]
    split_ifs with hclient
    · exact h.setHolder (by simp [hclient]) .free
    · exact h

structure Respected (run : P2PRun P R K A B) : Prop where
  held : ∀ lookupId get, run.gets lookupId = some get → get.phase.live = true →
    ∀ addr ∈ get.memObjs, run.holders addr = .request lookupId
  released : ∀ lookupId get, run.gets lookupId = some get → run.Released lookupId get
  returned : ∀ e ∈ run.returned, e ∈ run.stored

theorem respected_of_timely (maxRetryCount : ℕ) (memory : A → B)
    (events : List (P2PEvent P R K A B))
    (htimely : Execution.Along (exec maxRetryCount) (Timely maxRetryCount) (init memory) events) :
    Execution.Along (exec maxRetryCount)
      (fun run event => run.WritesHeld event ∧ (run.exec maxRetryCount event).Respected)
      (init memory) events := by
  refine Execution.along_of_invariant (fun run event h => h.exec maxRetryCount event)
    (fun run event h htimely => ?_) (inv_init memory) htimely
  have hnext := h.exec maxRetryCount event htimely
  exact ⟨h.writesHeld event, hnext.held, hnext.released, hnext.returned⟩

def oneHit : List (P2PEvent Unit ℕ ℕ ℕ ℕ) :=
  [.cache () 1 70, .start 5 () [1, 2] [0, 1], .send 5, .loseMsg 0, .timeout 5, .reconnected 5,
    .send 5, .deliver 0, .lookup (), .write () 0, .answer (), .receive 0]

theorem respected_oneHit :
    Execution.Along (exec 3) (fun run event => run.WritesHeld event ∧ (run.exec 3 event).Respected)
      (init (fun _ => 0) : P2PRun Unit ℕ ℕ ℕ ℕ) oneHit := by
  refine respected_of_timely 3 (fun _ => 0) oneHit ⟨trivial, Nat.succ_pos 2, trivial, trivial,
    trivial, fun get hget _ hcount => ?_, trivial, trivial, trivial, trivial, trivial,
    fun lookupId attempt ret hreply _ _ => ?_, trivial⟩
  · obtain rfl := some.inj hget
    exact absurd hcount (by decide)
  · exact ⟨fun e he => absurd he not_mem_nil, fun peer msg hmsg => by cases hmsg⟩

def lateCopy : List (P2PEvent Unit ℕ ℕ ℕ ℕ) :=
  [.cache () 1 70, .start 5 () [1, 2] [0, 1], .send 5, .timeout 5, .reconnected 5, .send 5,
    .deliver 1, .lookup (), .write () 0, .answer (), .receive 0, .allocate 1 99, .cache () 2 80,
    .deliver 0, .lookup ()]

theorem not_respected_lateCopy :
    ¬ Execution.Along (exec 3)
      (fun run event => run.WritesHeld event ∧ (run.exec 3 event).Respected)
      (init (fun _ => 0) : P2PRun Unit ℕ ℕ ℕ ℕ) (lateCopy ++ [.write () 1]) := by
  intro h
  have hwrite := ((Execution.along_append _ lateCopy [.write () 1]).mp h).2.1.1
  exact absurd (hwrite ⟨5, 1, [1, 2], [0, 1]⟩ 2 [(0, 70), (1, 80)] (1, 80) rfl rfl) (by decide)

end P2PRun

end LMCache
