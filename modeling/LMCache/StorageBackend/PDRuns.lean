import Mathlib.Data.List.Perm.Basic
import LMCache.Foundations.Cells
import LMCache.StorageBackend.PDBackend

namespace LMCache

open Function List Option PDPut PDRun

namespace PDPut

variable {K : Type} {alreadySentIndexes : List ℕ} {keys : List K}

theorem mem_memObjsToSend {key : K} : key ∈ memObjsToSend alreadySentIndexes keys ↔
    ∃ idx, keys[idx]? = some key ∧ idx ∉ alreadySentIndexes := by
  simp only [memObjsToSend, List.mem_map, mem_filter, decide_eq_true_eq]
  constructor
  · rintro ⟨⟨found, idx⟩, ⟨hmem, hnot⟩, rfl⟩
    exact ⟨idx, mem_zipIdx_iff_getElem?.mp hmem, hnot⟩
  · rintro ⟨idx, hget, hnot⟩
    exact ⟨(key, idx), ⟨mem_zipIdx_iff_getElem?.mpr hget, hnot⟩, rfl⟩

theorem mem_of_mem_memObjsToSend {key : K} (h : key ∈ memObjsToSend alreadySentIndexes keys) :
    key ∈ keys := by
  obtain ⟨idx, hget, _⟩ := mem_memObjsToSend.mp h
  exact mem_of_getElem? hget

theorem memObjsToSend_concat (key : K) : memObjsToSend alreadySentIndexes (keys ++ [key]) =
    memObjsToSend alreadySentIndexes keys ++
      if keys.length ∈ alreadySentIndexes then [] else [key] := by
  rw [memObjsToSend, memObjsToSend, zipIdx_append, filter_append, map_append]
  congr 1
  by_cases h : keys.length ∈ alreadySentIndexes
  · simp [h]
  · simp [h]

theorem memObjsToSend_of_le {idx : ℕ} (h : keys.length ≤ idx) :
    memObjsToSend (alreadySentIndexes ++ [idx]) keys = memObjsToSend alreadySentIndexes keys := by
  rw [memObjsToSend, memObjsToSend]
  congr 1
  refine filter_congr fun e he => ?_
  have hlt : e.2 < keys.length := by
    have := snd_lt_of_mem_zipIdx he
    omega
  have hne : e.2 ≠ idx := by omega
  simp [hne]

theorem memObjsToSend_sent (key : K) :
    memObjsToSend (alreadySentIndexes ++ [keys.length]) (keys ++ [key]) =
      memObjsToSend alreadySentIndexes keys := by
  rw [memObjsToSend_concat, memObjsToSend_of_le (Nat.le_refl _),
    if_pos (mem_append_right _ (mem_singleton_self _)), append_nil]

def registered (put : PDPut K) : List K :=
  match put.phase with
  | .allocating idx => put.keys.take idx
  | .responded | .transferring => put.keys
  | _ => []

theorem registered_of_allocating {put : PDPut K} {idx : ℕ} (h : put.phase = .allocating idx) :
    put.registered = put.keys.take idx := by
  rw [registered, h]

def outstanding (put : PDPut K) : List (K × ℕ) :=
  match put.phase with
  | .allocating _ | .responded =>
      (memObjsToSend put.alreadySentIndexes put.registered).zip put.remoteIndexes
  | .transferring | .failed => put.pending
  | _ => []

theorem outstanding_of_allocating {put : PDPut K} {idx : ℕ} (h : put.phase = .allocating idx) :
    put.outstanding =
      (memObjsToSend put.alreadySentIndexes (put.keys.take idx)).zip put.remoteIndexes := by
  rw [outstanding, registered_of_allocating h, h]

end PDPut

structure PDPaired {K : Type} (data : K → Option ℕ) (alreadySentIndexes remoteIndexes : List ℕ)
    (keys : List K) : Prop where
  known : ∀ key ∈ keys, ∃ addr, data key = some addr
  length : (memObjsToSend alreadySentIndexes keys).length = remoteIndexes.length
  address : ∀ e ∈ (memObjsToSend alreadySentIndexes keys).zip remoteIndexes, data e.1 = some e.2
  bound : ∀ idx ∈ alreadySentIndexes, idx < keys.length

namespace PDPaired

variable {K : Type} {data data' : K → Option ℕ} {alreadySentIndexes remoteIndexes : List ℕ}
  {keys : List K} {key : K} {addr : ℕ}

theorem mono (h : PDPaired data alreadySentIndexes remoteIndexes keys)
    (hdata : ∀ key ∈ keys, ∀ addr, data key = some addr → data' key = some addr) :
    PDPaired data' alreadySentIndexes remoteIndexes keys := by
  refine ⟨fun key hkey => ?_, h.length, fun e he => ?_, h.bound⟩
  · obtain ⟨addr, hget⟩ := h.known key hkey
    exact ⟨addr, hdata key hkey addr hget⟩
  · exact hdata e.1 (mem_of_mem_memObjsToSend (of_mem_zip he).1) e.2 (h.address e he)

theorem known_concat (h : PDPaired data alreadySentIndexes remoteIndexes keys)
    (hget : data key = some addr) : ∀ other ∈ keys ++ [key], ∃ a, data other = some a := by
  intro other hother
  rcases mem_append.mp hother with hold | hnew
  · exact h.known other hold
  · exact ⟨addr, mem_singleton.mp hnew ▸ hget⟩

theorem sent (h : PDPaired data alreadySentIndexes remoteIndexes keys)
    (hget : data key = some addr) :
    PDPaired data (alreadySentIndexes ++ [keys.length]) remoteIndexes (keys ++ [key]) := by
  refine ⟨h.known_concat hget, ?_, ?_, fun idx hidx => ?_⟩
  · rw [memObjsToSend_sent, h.length]
  · rw [memObjsToSend_sent]
    exact h.address
  · rw [length_append, length_singleton]
    rcases mem_append.mp hidx with hold | hnew
    · exact Nat.lt_succ_of_lt (h.bound idx hold)
    · rw [mem_singleton.mp hnew]
      exact Nat.lt_succ_self _

theorem zip_concat (h : PDPaired data alreadySentIndexes remoteIndexes keys) (key : K) (addr : ℕ) :
    (memObjsToSend alreadySentIndexes (keys ++ [key])).zip (remoteIndexes ++ [addr]) =
      (memObjsToSend alreadySentIndexes keys).zip remoteIndexes ++ [(key, addr)] := by
  have hindex : keys.length ∉ alreadySentIndexes := fun hmem => Nat.lt_irrefl _ (h.bound _ hmem)
  rw [memObjsToSend_concat, if_neg hindex, zip_append h.length]
  rfl

theorem allocated (h : PDPaired data alreadySentIndexes remoteIndexes keys)
    (hget : data key = some addr) :
    PDPaired data alreadySentIndexes (remoteIndexes ++ [addr]) (keys ++ [key]) := by
  have hindex : keys.length ∉ alreadySentIndexes := fun hmem => Nat.lt_irrefl _ (h.bound _ hmem)
  refine ⟨h.known_concat hget, ?_, fun e he => ?_, fun idx hidx => ?_⟩
  · rw [memObjsToSend_concat, if_neg hindex, length_append, length_append, h.length]
    rfl
  · rw [h.zip_concat] at he
    rcases mem_append.mp he with hold | hnew
    · exact h.address e hold
    · rw [mem_singleton.mp hnew]
      exact hget
  · rw [length_append]
    exact Nat.lt_add_right _ (h.bound idx hidx)

theorem exists_address (h : PDPaired data alreadySentIndexes remoteIndexes keys)
    (hkey : key ∈ memObjsToSend alreadySentIndexes keys) :
    ∃ addr, (key, addr) ∈ (memObjsToSend alreadySentIndexes keys).zip remoteIndexes := by
  obtain ⟨i, hlt, hi⟩ := mem_iff_getElem.mp hkey
  have hlt' : i < remoteIndexes.length := h.length ▸ hlt
  refine ⟨remoteIndexes[i], mem_iff_getElem?.mpr ⟨i, ?_⟩⟩
  rw [getElem?_zip_eq_some]
  exact ⟨List.getElem?_eq_some_iff.mpr ⟨hlt, hi⟩, List.getElem?_eq_getElem hlt'⟩

end PDPaired

namespace PDRun

variable {R K B : Type} {chunk : K → B} {run run' : PDRun R K B}

def Filled (chunk : K → B) (run : PDRun R K B) (e : K × ℕ) : Prop := run.memory e.2 = chunk e.1

def PutOk (chunk : K → B) (run : PDRun R K B) (put : PDPut K) : Prop :=
  match put.phase with
  | .requested => put.alreadySentIndexes = [] ∧ put.remoteIndexes = []
  | .allocating idx => idx ≤ put.keys.length ∧
      PDPaired run.data put.alreadySentIndexes put.remoteIndexes (put.keys.take idx)
  | .responded => PDPaired run.data put.alreadySentIndexes put.remoteIndexes put.keys
  | .transferring => PDPaired run.data put.alreadySentIndexes put.remoteIndexes put.keys ∧
      (∀ e ∈ put.transfers, e ∈ put.pending ∨ run.Filled chunk e) ∧
        ∀ e ∈ put.pending, e ∈ put.transfers
  | .finished | .failed => True

theorem PutOk.frame {put : PDPut K} (h : run.PutOk chunk put)
    (hdata : ∀ key ∈ put.registered, ∀ addr, run.data key = some addr → run'.data key = some addr)
    (hfilled : ∀ e, run.data e.1 = some e.2 → run.Filled chunk e → run'.Filled chunk e) :
    run'.PutOk chunk put := by
  rw [PutOk] at h ⊢
  rw [registered] at hdata
  cases hphase : put.phase with
  | requested =>
    rw [hphase] at h
    exact h
  | allocating idx =>
    rw [hphase] at h hdata
    exact ⟨h.1, h.2.mono hdata⟩
  | responded =>
    rw [hphase] at h hdata
    exact h.mono hdata
  | transferring =>
    rw [hphase] at h hdata
    refine ⟨h.1.mono hdata, fun e he => (h.2.1 e he).imp_right fun hold => ?_, h.2.2⟩
    exact hfilled e (h.1.address e he) hold
  | finished => trivial
  | failed => trivial

structure Inv (chunk : K → B) (run : PDRun R K B) : Prop where
  refs : ∀ key addr, run.data key = some addr → 0 < run.refCounts addr ∧ addr ∉ run.freeBlocks
  inj : ∀ key key' addr, run.data key = some addr → run.data key' = some addr → key = key'
  nodup : run.freeBlocks.Nodup
  filled : ∀ key addr, run.data key = some addr → run.Filled chunk (key, addr) ∨
    ∃ task put, run.puts task = some put ∧ (key, addr) ∈ put.outstanding
  puts : ∀ task put, run.puts task = some put → run.PutOk chunk put

theorem Inv.setServing (h : run.Inv chunk) (serving : Option R) :
    ({ run with serving := serving }).Inv chunk :=
  ⟨h.refs, h.inj, h.nodup, h.filled, h.puts⟩

theorem Inv.setRefCount (h : run.Inv chunk) (addr : ℕ) {n : ℕ} (hpos : 0 < n) :
    ({ run with refCounts := update run.refCounts addr n }).Inv chunk := by
  refine ⟨fun key a hget => ⟨?_, (h.refs key a hget).2⟩, h.inj, h.nodup, h.filled, h.puts⟩
  dsimp only
  by_cases heq : a = addr
  · rw [heq, update_self]
    exact hpos
  · rw [update_of_ne heq]
    exact (h.refs key a hget).1

theorem putIn_eq_some {task : R} {phase : PDPhase} {put : PDPut K}
    (h : run.putIn task phase = some put) : run.puts task = some put ∧ put.phase = phase := by
  obtain ⟨hput, hphase⟩ := filter_eq_some_iff.mp h
  exact ⟨hput, of_decide_eq_true hphase⟩

theorem served_eq_some {task : R} {put : PDPut K} {idx : ℕ}
    (h : run.served = some (task, put, idx)) :
    run.puts task = some put ∧ put.phase = .allocating idx := by
  rw [served] at h
  cases hserving : run.serving with
  | none => simp [hserving] at h
  | some served =>
    rw [hserving] at h
    dsimp only at h
    cases hput : run.puts served with
    | none => simp [hput] at h
    | some found =>
      rw [hput] at h
      dsimp only at h
      split at h
      · rename_i hphase
        obtain ⟨rfl, hrest⟩ := Prod.mk.inj (some.inj h)
        obtain ⟨rfl, rfl⟩ := Prod.mk.inj hrest
        exact ⟨hput, hphase⟩
      · cases h

variable [DecidableEq R]

theorem Inv.setPut (h : run.Inv chunk) {task : R} {put : PDPut K} (hok : run.PutOk chunk put)
    (hout : ∀ old, run.puts task = some old → ∀ e ∈ old.outstanding,
      e ∈ put.outstanding ∨ run.Filled chunk e) : (run.setPut task put).Inv chunk := by
  refine ⟨h.refs, h.inj, h.nodup, fun key addr hget => ?_, fun other found hfound => ?_⟩
  · rcases h.filled key addr hget with hfilled | ⟨other, found, hfound, hmem⟩
    · exact .inl hfilled
    · by_cases heq : other = task
      · refine (hout found (heq ▸ hfound) _ hmem).symm.imp_right fun hnew => ?_
        exact ⟨task, put, update_self _ _ _, hnew⟩
      · exact .inr ⟨other, found, (update_of_ne heq _ _).trans hfound, hmem⟩
  · rcases Cells.update_eq_some hfound with ⟨_, rfl⟩ | ⟨_, hold⟩
    · exact hok
    · exact h.puts other found hold

variable [DecidableEq K]

section AllocateKey

variable {task : R} {put : PDPut K} {idx : ℕ} {key : K} {addr : ℕ}

omit [DecidableEq K] in
theorem take_succ_of_getElem? {keys : List K} (hkey : keys[idx]? = some key) :
    keys.take (idx + 1) = keys.take idx ++ [key] := by
  rw [take_add_one, hkey]
  rfl

theorem Inv.allocateKey_sent (h : run.Inv chunk) (hput : run.puts task = some put)
    (hphase : put.phase = .allocating idx) (hkey : put.keys[idx]? = some key)
    (hget : run.data key = some addr) : (run.allocateKey task put idx key).Inv chunk := by
  have hok := h.puts task put hput
  rw [PutOk, hphase] at hok
  obtain ⟨hlt, _⟩ := List.getElem?_eq_some_iff.mp hkey
  have hlen : (put.keys.take idx).length = idx := length_take_of_le (Nat.le_of_lt hlt)
  have htake := take_succ_of_getElem? hkey
  simp only [allocateKey, hget]
  refine (h.setRefCount addr (Nat.succ_pos _)).setPut ⟨hlt, ?_⟩ fun old hold e he => .inl ?_
  · have hsent := hok.2.sent hget
    rw [hlen, ← htake] at hsent
    exact hsent
  · obtain rfl := some.inj (hput.symm.trans hold)
    have hsame := @memObjsToSend_sent K put.alreadySentIndexes (put.keys.take idx) key
    rw [hlen, ← htake] at hsame
    rw [outstanding_of_allocating hphase, ← hsame] at he
    rw [outstanding_of_allocating rfl]
    exact he

omit [DecidableEq R] [DecidableEq K] in
theorem Inv.apart_of_free (h : run.Inv chunk) {rest : List ℕ} (hget : run.data key = none)
    (hfree : run.freeBlocks = addr :: rest) :
    ∀ k a, run.data k = some a → k ≠ key ∧ a ≠ addr ∧ a ∉ rest := by
  intro k a hk
  have hnotFree := (h.refs k a hk).2
  rw [hfree, mem_cons, not_or] at hnotFree
  refine ⟨?_, hnotFree⟩
  rintro rfl
  rw [hget] at hk
  cases hk

theorem Inv.allocateKey_fresh (h : run.Inv chunk) {rest : List ℕ} (hput : run.puts task = some put)
    (hphase : put.phase = .allocating idx) (hkey : put.keys[idx]? = some key)
    (hget : run.data key = none) (hfree : run.freeBlocks = addr :: rest) :
    (run.allocateKey task put idx key).Inv chunk := by
  have hok := h.puts task put hput
  rw [PutOk, hphase] at hok
  obtain ⟨hlt, _⟩ := List.getElem?_eq_some_iff.mp hkey
  have htake := take_succ_of_getElem? hkey
  have hnodup := h.nodup
  rw [hfree, nodup_cons] at hnodup
  have hother := h.apart_of_free hget hfree
  have hdata : ∀ k a, run.data k = some a →
      update run.data key (some addr) k = some a := by
    intro k a hk
    rw [update_of_ne (hother k a hk).1]
    exact hk
  have hnew := (hok.2.mono fun k _ => hdata k).allocated (update_self key _ run.data)
  have hzip := hok.2.zip_concat key addr
  rw [← htake] at hnew hzip
  simp only [allocateKey, hget, hfree]
  refine ⟨fun k a hk => ?_, fun k k' a hk hk' => ?_, hnodup.2, fun k a hk => ?_,
    fun other found hfound => ?_⟩
  · rcases Cells.update_eq_some hk with ⟨rfl, rfl⟩ | ⟨_, hold⟩
    · refine ⟨?_, hnodup.1⟩
      dsimp only
      rw [update_self]
      exact Nat.one_pos
    · obtain ⟨_, hne, hnotRest⟩ := hother k a hold
      refine ⟨?_, hnotRest⟩
      dsimp only
      rw [update_of_ne hne]
      exact (h.refs k a hold).1
  · rcases Cells.update_eq_some hk with ⟨rfl, rfl⟩ | ⟨_, hold⟩
    · rcases Cells.update_eq_some hk' with ⟨rfl, _⟩ | ⟨_, hold'⟩
      · rfl
      · exact absurd rfl (hother k' a hold').2.1
    · rcases Cells.update_eq_some hk' with ⟨rfl, rfl⟩ | ⟨_, hold'⟩
      · exact absurd rfl (hother k a hold).2.1
      · exact h.inj k k' a hold hold'
  · rcases Cells.update_eq_some hk with ⟨rfl, rfl⟩ | ⟨_, hold⟩
    · refine .inr ⟨task, _, update_self _ _ _, ?_⟩
      rw [outstanding_of_allocating rfl]
      dsimp only
      rw [hzip]
      exact mem_append_right _ (mem_singleton_self _)
    · refine (h.filled k a hold).imp_right ?_
      rintro ⟨other, found, hfound, hmem⟩
      by_cases heq : other = task
      · obtain rfl := some.inj (hput.symm.trans (heq ▸ hfound))
        refine ⟨task, _, update_self _ _ _, ?_⟩
        rw [outstanding_of_allocating hphase] at hmem
        rw [outstanding_of_allocating rfl]
        dsimp only
        rw [hzip]
        exact mem_append_left _ hmem
      · exact ⟨other, found, (update_of_ne heq _ _).trans hfound, hmem⟩
  · rcases Cells.update_eq_some hfound with ⟨_, rfl⟩ | ⟨_, hold⟩
    · exact ⟨hlt, hnew⟩
    · exact (h.puts other found hold).frame (fun k _ => hdata k) fun _ _ => id

theorem Inv.allocateKey (h : run.Inv chunk) (hput : run.puts task = some put)
    (hphase : put.phase = .allocating idx) (hkey : put.keys[idx]? = some key) :
    (run.allocateKey task put idx key).Inv chunk := by
  cases hget : run.data key with
  | some addr => exact h.allocateKey_sent hput hphase hkey hget
  | none =>
    cases hfree : run.freeBlocks with
    | nil =>
      simp only [PDRun.allocateKey, hget, hfree]
      exact h
    | cons addr rest => exact h.allocateKey_fresh hput hphase hkey hget hfree

end AllocateKey

omit [DecidableEq K] in
theorem Inv.write (h : run.Inv chunk) {task : R} {put : PDPut K}
    (hput : run.puts task = some put) (hphase : put.phase = .transferring) {page : ℕ}
    {key : K} {addr : ℕ} (hpage : put.pending[page]? = some (key, addr)) :
    ({ run.setPut task { put with pending := put.pending.eraseIdx page } with
      memory := update run.memory addr (chunk key) }).Inv chunk := by
  have hok := h.puts task put hput
  rw [PutOk, hphase] at hok
  obtain ⟨hpaired, htransfers, hpending⟩ := hok
  have hget : run.data key = some addr :=
    hpaired.address _ (hpending _ (mem_of_getElem? hpage))
  have hself : ({ run with memory := update run.memory addr (chunk key) }).Filled chunk
      (key, addr) := update_self addr _ _
  have hkept : ∀ e, run.data e.1 = some e.2 → run.Filled chunk e →
      ({ run with memory := update run.memory addr (chunk key) }).Filled chunk e := by
    rintro ⟨k, a⟩ hk hold
    by_cases heq : a = addr
    · subst heq
      rw [h.inj k key a hk hget]
      exact hself
    · exact (update_of_ne heq _ _).trans hold
  have hwritten : ({ run with memory := update run.memory addr (chunk key) }).Inv chunk :=
    ⟨h.refs, h.inj, h.nodup, fun k a hk => (h.filled k a hk).imp_left (hkept (k, a) hk),
      fun other found hfound => (h.puts other found hfound).frame (fun _ _ _ => id) hkept⟩
  have hsplit : ∀ e ∈ put.pending, e ∈ put.pending.eraseIdx page ∨
      ({ run with memory := update run.memory addr (chunk key) }).Filled chunk e := by
    intro e he
    obtain ⟨hlt, hfirst⟩ := List.getElem?_eq_some_iff.mp hpage
    rw [← (getElem_cons_eraseIdx_perm hlt).mem_iff, hfirst, mem_cons] at he
    rcases he with rfl | hrest
    · exact .inr hself
    · exact .inl hrest
  refine hwritten.setPut ?_ fun old hold e he => ?_
  · rw [PutOk, hphase]
    refine ⟨hpaired, fun e he => ?_, fun e he => hpending e (mem_of_mem_eraseIdx he)⟩
    rcases htransfers e he with hwait | hold
    · exact hsplit e hwait
    · exact .inr (hkept e (hpaired.address e he) hold)
  · obtain rfl := some.inj (hput.symm.trans hold)
    rw [outstanding, hphase] at he ⊢
    exact hsplit e he

omit [DecidableEq R] in
theorem Inv.retrieveKey (h : run.Inv chunk) {key : K}
    (hunused : ∀ addr, run.data key = some addr → run.refCounts addr = 1 →
      ∀ task put, run.puts task = some put → key ∉ put.registered) :
    (run.retrieveKey key).Inv chunk := by
  rw [PDRun.retrieveKey]
  cases hget : run.data key with
  | none => exact h
  | some addr =>
    dsimp only
    split_ifs with hlast
    · have hother : ∀ k a, update run.data key none k = some a →
          k ≠ key ∧ run.data k = some a := by
        intro k a hk
        have hne : k ≠ key := by
          rintro rfl
          rw [update_self] at hk
          cases hk
        exact ⟨hne, (update_of_ne hne _ _).symm.trans hk⟩
      refine ⟨fun k a hk => ?_, fun k k' a hk hk' => ?_, ?_, fun k a hk => ?_,
        fun other found hfound => ?_⟩
      · obtain ⟨hne, hold⟩ := hother k a hk
        have haddr : a ≠ addr := by
          rintro rfl
          exact hne (h.inj k key a hold hget)
        refine ⟨?_, fun hmem => ?_⟩
        · dsimp only
          rw [update_of_ne haddr]
          exact (h.refs k a hold).1
        · rcases mem_append.mp hmem with hmem | hmem
          · exact (h.refs k a hold).2 hmem
          · exact haddr (mem_singleton.mp hmem)
      · exact h.inj k k' a (hother k a hk).2 (hother k' a hk').2
      · have hnotFree := (h.refs key addr hget).2
        exact nodup_append_comm.mp (nodup_cons.mpr ⟨hnotFree, h.nodup⟩)
      · exact h.filled k a (hother k a hk).2
      · refine (h.puts other found hfound).frame (fun k hk a hold => ?_) fun _ _ => id
        have hne : k ≠ key := by
          rintro rfl
          exact hunused addr hget hlast other found hfound hk
        exact (update_of_ne hne _ _).trans hold
    · have hpos := (h.refs key addr hget).1
      exact h.setRefCount addr (by omega)

def Timely (run : PDRun R K B) : PDEvent R K → Prop
  | .finish task => ∀ put, run.puts task = some put → put.phase = .transferring →
      put.pending = [] → put.isLastPrefill = true →
        ∀ idx ∈ put.alreadySentIndexes, ∀ key addr, put.keys[idx]? = some key →
          run.data key = some addr →
            ∀ task' put', run.puts task' = some put' → (key, addr) ∉ put'.outstanding
  | .retrieve key => ∀ addr, run.data key = some addr → run.refCounts addr = 1 →
      ∀ task put, run.puts task = some put → key ∉ put.registered
  | _ => True

theorem Inv.accept (h : run.Inv chunk) (task : R) : (run.exec chunk (.accept task)).Inv chunk := by
  dsimp only [exec]
  split
  · rename_i put _ hin
    obtain ⟨hput, hphase⟩ := putIn_eq_some hin
    have hok := h.puts task put hput
    rw [PutOk, hphase] at hok
    refine (h.setServing (some task)).setPut ⟨Nat.zero_le _, ?_⟩ fun old hold e he => ?_
    · rw [hok.1, hok.2]
      refine ⟨fun k hk => ?_, rfl, fun e he => ?_, fun idx hidx => ?_⟩
      · exact absurd hk not_mem_nil
      · exact absurd he not_mem_nil
      · exact absurd hidx not_mem_nil
    · obtain rfl := some.inj (hput.symm.trans hold)
      rw [outstanding, hphase] at he
      exact absurd he not_mem_nil
  · exact h

theorem Inv.allocateNext (h : run.Inv chunk) : (run.exec chunk .allocateNext).Inv chunk := by
  dsimp only [exec]
  cases hserved : run.served with
  | none => exact h
  | some work =>
    obtain ⟨task, put, idx⟩ := work
    obtain ⟨hput, hphase⟩ := served_eq_some hserved
    dsimp only
    cases hkey : put.keys[idx]? with
    | none => exact h
    | some key => exact h.allocateKey hput hphase hkey

theorem Inv.respond (h : run.Inv chunk) : (run.exec chunk .respond).Inv chunk := by
  dsimp only [exec]
  cases hserved : run.served with
  | none => exact h
  | some work =>
    obtain ⟨task, put, idx⟩ := work
    obtain ⟨hput, hphase⟩ := served_eq_some hserved
    dsimp only
    split_ifs with hall
    · have hok := h.puts task put hput
      rw [PutOk, hphase] at hok
      have htake : put.keys.take idx = put.keys := take_of_length_le (Nat.le_of_eq hall.symm)
      refine (h.setServing none).setPut ?_ fun old hold e he => .inl ?_
      · have hpaired := hok.2
        rw [htake] at hpaired
        exact hpaired
      · obtain rfl := some.inj (hput.symm.trans hold)
        rw [outstanding_of_allocating hphase, htake] at he
        exact he
    · exact h

theorem Inv.receive (h : run.Inv chunk) (task : R) :
    (run.exec chunk (.receive task)).Inv chunk := by
  dsimp only [exec]
  cases hin : run.putIn task .responded with
  | none => exact h
  | some put =>
    obtain ⟨hput, hphase⟩ := putIn_eq_some hin
    have hok := h.puts task put hput
    rw [PutOk, hphase] at hok
    refine h.setPut ⟨hok, fun e he => .inl he, fun e he => he⟩ fun old hold e he => .inl ?_
    obtain rfl := some.inj (hput.symm.trans hold)
    rw [outstanding, registered, hphase] at he
    exact he

theorem Inv.fail (h : run.Inv chunk) (task : R) : (run.exec chunk (.fail task)).Inv chunk := by
  dsimp only [exec]
  cases hin : run.putIn task .transferring with
  | none => exact h
  | some put =>
    obtain ⟨hput, hphase⟩ := putIn_eq_some hin
    refine h.setPut trivial fun old hold e he => .inl ?_
    obtain rfl := some.inj (hput.symm.trans hold)
    rw [outstanding, hphase] at he
    exact he

theorem Inv.finish (h : run.Inv chunk) (task : R) : (run.exec chunk (.finish task)).Inv chunk := by
  dsimp only [exec]
  cases hin : run.putIn task .transferring with
  | none => exact h
  | some put =>
    obtain ⟨hput, hphase⟩ := putIn_eq_some hin
    dsimp only
    split_ifs with hdone
    · refine h.setPut trivial fun old hold e he => ?_
      obtain rfl := some.inj (hput.symm.trans hold)
      rw [outstanding, hphase, hdone] at he
      exact absurd he not_mem_nil
    · exact h

theorem Inv.exec (h : run.Inv chunk) (event : PDEvent R K) (htimely : run.Timely event) :
    (run.exec chunk event).Inv chunk := by
  cases event with
  | submit task keys isLastPrefill =>
    dsimp only [PDRun.exec]
    cases hput : run.puts task with
    | some put => exact h
    | none =>
      refine h.setPut ⟨rfl, rfl⟩ fun old hold => ?_
      rw [hput] at hold
      cases hold
  | accept task => exact h.accept task
  | allocateNext => exact h.allocateNext
  | respond => exact h.respond
  | receive task => exact h.receive task
  | write task page =>
    dsimp only [PDRun.exec]
    cases hin : run.putIn task .transferring with
    | none => exact h
    | some put =>
      obtain ⟨hput, hphase⟩ := putIn_eq_some hin
      dsimp only
      cases hpage : put.pending[page]? with
      | none => exact h
      | some target => exact h.write hput hphase hpage
  | fail task => exact h.fail task
  | finish task => exact h.finish task
  | retrieve key => exact h.retrieveKey htimely

def HandedOver (chunk : K → B) (run : PDRun R K B) : PDEvent R K → Prop
  | .finish task => ∀ put, run.puts task = some put → put.phase = .transferring →
      put.pending = [] → put.isLastPrefill = true →
        (∀ key ∈ put.keys, ∃ addr, run.data key = some addr ∧ run.memory addr = chunk key) ∧
          ∀ e ∈ put.transfers, run.data e.1 = some e.2
  | _ => True

omit [DecidableEq R] [DecidableEq K] in
theorem Inv.handedOver (h : run.Inv chunk) {event : PDEvent R K} (htimely : run.Timely event) :
    run.HandedOver chunk event := by
  cases event with
  | finish task =>
    intro put hput hphase hdone hlast
    have hok := h.puts task put hput
    rw [PutOk, hphase] at hok
    obtain ⟨hpaired, htransfers, _⟩ := hok
    refine ⟨fun key hkey => ?_, hpaired.address⟩
    obtain ⟨addr, hget⟩ := hpaired.known key hkey
    obtain ⟨idx, hidx⟩ := mem_iff_getElem?.mp hkey
    refine ⟨addr, hget, ?_⟩
    by_cases hsent : idx ∈ put.alreadySentIndexes
    · refine (h.filled key addr hget).resolve_right ?_
      rintro ⟨task', put', hput', hmem⟩
      exact htimely put hput hphase hdone hlast idx hsent key addr hidx hget task' put' hput' hmem
    · have hunsent := mem_memObjsToSend.mpr ⟨idx, hidx, hsent⟩
      obtain ⟨addr', hmem⟩ := hpaired.exists_address hunsent
      have haddr : addr' = addr := some.inj ((hpaired.address _ hmem).symm.trans hget)
      have hfilled := (htransfers _ hmem).resolve_left (hdone ▸ not_mem_nil)
      rw [haddr] at hfilled
      exact hfilled
  | _ => trivial

omit [DecidableEq R] [DecidableEq K] in
theorem inv_init (numBlocks : ℕ) (memory : ℕ → B) :
    (init numBlocks memory : PDRun R K B).Inv chunk := by
  refine ⟨fun _ _ hget => ?_, fun _ _ _ hget => ?_, nodup_range, fun _ _ hget => ?_,
    fun _ _ hput => ?_⟩
  · cases hget
  · cases hget
  · cases hget
  · cases hput

theorem handedOver_of_timely (chunk : K → B) (numBlocks : ℕ) (memory : ℕ → B)
    (events : List (PDEvent R K))
    (htimely : Execution.Along (exec chunk) Timely (init numBlocks memory) events) :
    Execution.Along (exec chunk) (HandedOver chunk) (init numBlocks memory) events :=
  Execution.along_of_invariant (fun _ event h => h.exec event)
    (fun _ _ h htimely => h.handedOver htimely) (inv_init numBlocks memory) htimely

def sharedPrefix : List (PDEvent Bool ℕ) :=
  [.submit false [1, 2] true, .accept false, .allocateNext, .allocateNext, .respond,
    .receive false, .write false 1, .write false 0, .finish false, .submit true [1, 3] true,
    .accept true, .allocateNext, .allocateNext, .respond, .receive true, .write true 0,
    .finish true, .retrieve 1]

theorem handedOver_sharedPrefix :
    Execution.Along (exec fun key => 10 * key) (HandedOver fun key => 10 * key)
      (init 4 (fun _ => 0) : PDRun Bool ℕ ℕ) sharedPrefix := by
  refine handedOver_of_timely (fun key => 10 * key) 4 (fun _ => 0) sharedPrefix
    ⟨trivial, trivial, trivial, trivial, trivial, trivial, trivial, trivial, ?_, trivial, trivial,
      trivial, trivial, trivial, trivial, trivial, ?_, ?_, trivial⟩
  · intro put hput _ _ _ idx hidx
    obtain rfl := some.inj hput
    exact absurd hidx not_mem_nil
  · intro put hput _ _ _ idx hidx key addr hkey hget task' put' hput'
    obtain rfl := some.inj hput
    obtain rfl := mem_singleton.mp hidx
    obtain rfl := some.inj hkey
    obtain rfl := some.inj hget
    cases task' with
    | false | true =>
      obtain rfl := some.inj hput'
      exact not_mem_nil
  · intro addr hget hlast
    obtain rfl := some.inj hget
    exact absurd hlast (by decide)

def overtaken : List (PDEvent Bool ℕ) :=
  [.submit false [1] true, .accept false, .allocateNext, .respond, .submit true [1] true,
    .accept true, .allocateNext, .respond, .receive true]

theorem not_handedOver_overtaken :
    ¬ Execution.Along (exec fun key => 10 * key) (HandedOver fun key => 10 * key)
      (init 4 (fun _ => 0) : PDRun Bool ℕ ℕ) (overtaken ++ [.finish true]) := by
  intro h
  have hfinish := ((Execution.along_append _ overtaken [.finish true]).mp h).2.1
  obtain ⟨addr, hget, hmemory⟩ := (hfinish _ rfl rfl rfl rfl).1 1 (by decide)
  obtain rfl := some.inj hget
  exact absurd hmemory (by decide)

end PDRun

end LMCache
