import Mathlib.Algebra.Order.Ring.Nat
import LMCache.Foundations.Lists
import LMCache.Foundations.Execution

namespace LMCache

open List

structure TokenHasher (H B : Type) where
  chunkSize : ℕ
  hashFunc : H → List ℕ → H
  noneHash : H
  hashToBytes : H → B
  chunkSizePos : 0 < chunkSize

namespace TokenHasher

variable {H B : Type}

def hashTokens (hasher : TokenHasher H B) (tokens : List ℕ) (prefixHash : Option H) : H :=
  hasher.hashFunc (prefixHash.getD hasher.noneHash) tokens

def chunk (hasher : TokenHasher H B) (tokenIds : List ℕ) (idx : ℕ) : List ℕ :=
  Slice.slice tokenIds (idx * hasher.chunkSize) (idx * hasher.chunkSize + hasher.chunkSize)

def chunkHashesFrom (hasher : TokenHasher H B) (tokenIds : List ℕ) (start : ℕ) :
    ℕ → ℕ → H → List B
  | 0, _, _ => []
  | remaining + 1, idx, prefixHash =>
      let prefixHash := hasher.hashTokens (hasher.chunk tokenIds idx) (some prefixHash)
      let hashes := chunkHashesFrom hasher tokenIds start remaining (idx + 1) prefixHash
      if start ≤ idx * hasher.chunkSize then hasher.hashToBytes prefixHash :: hashes else hashes

def computeChunkHashes (hasher : TokenHasher H B) (tokenIds : List ℕ) (start : ℕ)
    (stop : Option ℕ) : List B :=
  let effectiveLen := (stop.map (min tokenIds.length)).getD tokenIds.length
  chunkHashesFrom hasher tokenIds start (effectiveLen / hasher.chunkSize) 0 hasher.noneHash

def rollingHash (hasher : TokenHasher H B) (tokenIds : List ℕ) : ℕ → H
  | 0 => hasher.noneHash
  | n + 1 => hasher.hashFunc (rollingHash hasher tokenIds n) (hasher.chunk tokenIds n)

def chunkHash (hasher : TokenHasher H B) (tokenIds : List ℕ) (idx : ℕ) : B :=
  hasher.hashToBytes (hasher.rollingHash tokenIds (idx + 1))

variable (hasher : TokenHasher H B) (tokenIds : List ℕ) {startChunk remaining idx : ℕ}

theorem chunkHashesFrom_eq (h : startChunk ≤ idx) :
    hasher.chunkHashesFrom tokenIds (startChunk * hasher.chunkSize) remaining idx
        (hasher.rollingHash tokenIds idx) =
      (range' idx remaining).map (hasher.chunkHash tokenIds) := by
  induction remaining generalizing idx with
  | zero => rfl
  | succ remaining ih =>
    have hstart : startChunk * hasher.chunkSize ≤ idx * hasher.chunkSize := Nat.mul_le_mul_right _ h
    simp only [chunkHashesFrom, if_pos hstart, hashTokens, Option.getD_some, range'_succ, map_cons]
    exact congrArg₂ _ rfl (ih (by omega))

theorem chunkHashesFrom_skip (h : idx ≤ startChunk) :
    hasher.chunkHashesFrom tokenIds (startChunk * hasher.chunkSize) remaining idx
        (hasher.rollingHash tokenIds idx) =
      (range' startChunk (idx + remaining - startChunk)).map (hasher.chunkHash tokenIds) := by
  induction remaining generalizing idx with
  | zero => simp [chunkHashesFrom, Nat.sub_eq_zero_of_le h]
  | succ remaining ih =>
    rcases Nat.eq_or_lt_of_le h with rfl | hlt
    · rw [chunkHashesFrom_eq hasher tokenIds (Nat.le_refl _), Nat.add_sub_cancel_left]
    · have hstart : ¬ startChunk * hasher.chunkSize ≤ idx * hasher.chunkSize :=
        Nat.not_le.mpr (Nat.mul_lt_mul_of_pos_right hlt hasher.chunkSizePos)
      simp only [chunkHashesFrom, if_neg hstart, hashTokens, Option.getD_some]
      rw [show idx + (remaining + 1) = idx + 1 + remaining by omega]
      exact ih hlt

theorem computeChunkHashes_eq (startChunk : ℕ) (stop : Option ℕ) :
    hasher.computeChunkHashes tokenIds (startChunk * hasher.chunkSize) stop =
      (range' startChunk
        ((stop.map (min tokenIds.length)).getD tokenIds.length / hasher.chunkSize - startChunk)).map
        (hasher.chunkHash tokenIds) := by
  rw [computeChunkHashes]
  exact (hasher.chunkHashesFrom_skip tokenIds (Nat.zero_le startChunk)).trans (by rw [Nat.zero_add])

theorem rollingHash_congr {tokenIds tokenIds' : List ℕ} {n : ℕ}
    (h : tokenIds.take (n * hasher.chunkSize) = tokenIds'.take (n * hasher.chunkSize)) :
    hasher.rollingHash tokenIds n = hasher.rollingHash tokenIds' n := by
  induction n with
  | zero => rfl
  | succ n ih =>
    rw [Nat.succ_mul] at h
    have hlead : tokenIds.take (n * hasher.chunkSize) = tokenIds'.take (n * hasher.chunkSize) := by
      have := congrArg (take (n * hasher.chunkSize)) h
      simpa [take_take] using this
    rw [rollingHash, rollingHash, ih hlead, chunk, chunk, Slice.slice_congr h (Nat.le_refl _)]

end TokenHasher

structure Session (H : Type) where
  tokenIds : List ℕ
  chunkHashes : List H
  lastPrefixHash : Option H
  numChunksProcessed : ℕ

namespace Session

variable {H B : Type}

def create : Session H := ⟨[], [], none, 0⟩

def setTokens (s : Session H) (fullTokenIds : List ℕ) : Session H :=
  { s with tokenIds := fullTokenIds }

def hashNextChunk (hasher : TokenHasher H B) (s : Session H) : Session H :=
  let h := hasher.hashTokens (hasher.chunk s.tokenIds s.numChunksProcessed)
    (some (s.lastPrefixHash.getD hasher.noneHash))
  { s with
    lastPrefixHash := some h
    chunkHashes := s.chunkHashes ++ [h]
    numChunksProcessed := s.numChunksProcessed + 1 }

def computeHash (hasher : TokenHasher H B) : ℕ → Session H → Session H
  | 0, s => s
  | remaining + 1, s => computeHash hasher remaining (s.hashNextChunk hasher)

def getHashes (hasher : TokenHasher H B) (s : Session H) (start stop : ℕ) :
    Except String (List H × Session H) :=
  if start % hasher.chunkSize ≠ 0 then
    .error s!"start ({start}) must be a multiple of chunk_size ({hasher.chunkSize})"
  else if stop % hasher.chunkSize ≠ 0 then
    .error s!"end ({stop}) must be a multiple of chunk_size ({hasher.chunkSize})"
  else
    let endChunk := stop / hasher.chunkSize
    let s := computeHash hasher (endChunk - s.numChunksProcessed) s
    .ok (Slice.slice s.chunkHashes (start / hasher.chunkSize) endChunk, s)

structure Computed (hasher : TokenHasher H B) (tokenIds : List ℕ) (s : Session H) : Prop where
  hashes : s.chunkHashes =
    (range s.numChunksProcessed).map (fun i => hasher.rollingHash tokenIds (i + 1))
  last : s.lastPrefixHash.getD hasher.noneHash = hasher.rollingHash tokenIds s.numChunksProcessed

variable {hasher : TokenHasher H B} {tokenIds : List ℕ} {s : Session H}

theorem computed_create (hasher : TokenHasher H B) (tokenIds : List ℕ) :
    Computed hasher tokenIds create := ⟨rfl, rfl⟩

theorem Computed.next (h : Computed hasher tokenIds s)
    (hchunk : hasher.chunk s.tokenIds s.numChunksProcessed =
      hasher.chunk tokenIds s.numChunksProcessed) :
    Computed hasher tokenIds (s.hashNextChunk hasher) := by
  have hnext : hasher.hashTokens (hasher.chunk s.tokenIds s.numChunksProcessed)
      (some (s.lastPrefixHash.getD hasher.noneHash)) =
        hasher.rollingHash tokenIds (s.numChunksProcessed + 1) := by
    rw [hchunk, h.last]
    rfl
  refine ⟨?_, hnext⟩
  simp only [hashNextChunk, hnext, h.hashes, range_succ, map_append, map_cons, map_nil]

theorem Computed.computeHash (h : Computed hasher tokenIds s) {remaining : ℕ}
    (hchunks : ∀ i < s.numChunksProcessed + remaining,
      hasher.chunk s.tokenIds i = hasher.chunk tokenIds i) :
    Computed hasher tokenIds (computeHash hasher remaining s) ∧
      (Session.computeHash hasher remaining s).numChunksProcessed = s.numChunksProcessed + remaining := by
  induction remaining generalizing s with
  | zero => exact ⟨h, rfl⟩
  | succ remaining ih =>
    obtain ⟨hcomputed, hnum⟩ := ih (h.next (hchunks _ (by omega))) fun i hi => hchunks i (by
      have : (s.hashNextChunk hasher).numChunksProcessed = s.numChunksProcessed + 1 := rfl
      omega)
    refine ⟨hcomputed, hnum.trans ?_⟩
    change s.numChunksProcessed + 1 + remaining = _
    omega

theorem getHashes_eq (h : Computed hasher tokenIds s) (startChunk endChunk : ℕ)
    (hchunks : ∀ i < max s.numChunksProcessed endChunk,
      hasher.chunk s.tokenIds i = hasher.chunk tokenIds i) :
    ∃ s', s.getHashes hasher (startChunk * hasher.chunkSize) (endChunk * hasher.chunkSize) =
        .ok ((range' startChunk (endChunk - startChunk)).map
          (fun i => hasher.rollingHash tokenIds (i + 1)), s') ∧ Computed hasher tokenIds s' := by
  obtain ⟨hcomputed, hnum⟩ : Computed hasher tokenIds
      (Session.computeHash hasher (endChunk - s.numChunksProcessed) s) ∧ _ :=
    h.computeHash fun i hi => hchunks i (by omega)
  refine ⟨_, ?_, hcomputed⟩
  rw [getHashes, if_neg (by simp), if_neg (by simp), Nat.mul_div_cancel _ hasher.chunkSizePos,
    Nat.mul_div_cancel _ hasher.chunkSizePos]
  refine congrArg (fun hs => Except.ok (hs, _)) ?_
  rw [hcomputed.hashes, hnum, Slice.slice, ← map_take, ← map_drop, take_range,
    Nat.min_eq_left (by omega), range_eq_range', drop_range', Nat.zero_add, Nat.mul_one]

end Session

end LMCache

namespace LMCache

inductive SessionCall where
  | setTokens (fullTokenIds : List ℕ)
  | getHashes (start stop : ℕ)

namespace Session

variable {H B : Type}

def exec (hasher : TokenHasher H B) (s : Session H) : SessionCall → Session H
  | .setTokens fullTokenIds => s.setTokens fullTokenIds
  | .getHashes start stop =>
      match s.getHashes hasher start stop with
      | .error _ => s
      | .ok (_, s') => s'

def Extends (s : Session H) : SessionCall → Prop
  | .setTokens fullTokenIds => s.tokenIds <+: fullTokenIds
  | .getHashes _ _ => True

def Supplied (s : Session H) : SessionCall → Prop
  | .setTokens _ => True
  | .getHashes _ stop => stop ≤ s.tokenIds.length

instance decidableExtends (s : Session H) : ∀ call, Decidable (Extends s call)
  | .setTokens fullTokenIds => inferInstanceAs (Decidable (s.tokenIds <+: fullTokenIds))
  | .getHashes _ _ => inferInstanceAs (Decidable True)

instance decidableSupplied (s : Session H) : ∀ call, Decidable (Supplied s call)
  | .setTokens _ => inferInstanceAs (Decidable True)
  | .getHashes _ stop => inferInstanceAs (Decidable (stop ≤ s.tokenIds.length))

def answer (hasher : TokenHasher H B) (s : Session H) (start stop : ℕ) : Except String (List B) :=
  (s.getHashes hasher start stop).map (fun r => r.1.map hasher.hashToBytes)

def Agrees (hasher : TokenHasher H B) (s : Session H) (start stop : ℕ) : Prop :=
  s.answer hasher start stop = .ok (hasher.computeChunkHashes s.tokenIds start (some stop))

structure Settled (hasher : TokenHasher H B) (s : Session H) : Prop where
  computed : Computed hasher s.tokenIds s
  complete : s.numChunksProcessed * hasher.chunkSize ≤ s.tokenIds.length

variable {hasher : TokenHasher H B} {s : Session H}

theorem settled_create (hasher : TokenHasher H B) : Settled hasher create :=
  ⟨computed_create hasher [], by simp [create]⟩

theorem computeHash_tokenIds (remaining : ℕ) :
    (computeHash hasher remaining s).tokenIds = s.tokenIds := by
  induction remaining generalizing s with
  | zero => rfl
  | succ remaining ih => exact ih

theorem Settled.setTokens (h : Settled hasher s) {fullTokenIds : List ℕ}
    (hextends : s.tokenIds <+: fullTokenIds) : Settled hasher (s.setTokens fullTokenIds) := by
  obtain ⟨more, rfl⟩ := hextends
  have hsame : ∀ n ≤ s.numChunksProcessed,
      hasher.rollingHash s.tokenIds n = hasher.rollingHash (s.tokenIds ++ more) n := by
    intro n hn
    refine hasher.rollingHash_congr (List.take_append_of_le_length ?_).symm
    exact (Nat.mul_le_mul_right _ hn).trans h.complete
  refine ⟨⟨?_, ?_⟩, ?_⟩
  · refine h.computed.hashes.trans (List.map_congr_left fun i hi => ?_)
    exact hsame (i + 1) (List.mem_range.mp hi)
  · exact h.computed.last.trans (hsame _ le_rfl)
  · exact h.complete.trans (by simp [Session.setTokens])

theorem Settled.getHashes (h : Settled hasher s) {start stop : ℕ}
    (hsupplied : stop ≤ s.tokenIds.length) : Settled hasher (exec hasher s (.getHashes start stop)) := by
  simp only [exec, Session.getHashes]
  split_ifs
  · exact h
  · exact h
  · obtain ⟨hcomputed, hnum⟩ : Computed hasher s.tokenIds
        (computeHash hasher (stop / hasher.chunkSize - s.numChunksProcessed) s) ∧ _ :=
      h.computed.computeHash fun _ _ => rfl
    refine ⟨by rwa [computeHash_tokenIds], ?_⟩
    rw [computeHash_tokenIds, hnum]
    rcases Nat.le_total (stop / hasher.chunkSize) s.numChunksProcessed with hle | hle
    · rw [Nat.sub_eq_zero_of_le hle]
      exact h.complete
    · rw [Nat.add_sub_cancel' hle]
      exact (Nat.div_mul_le_self _ _).trans hsupplied

theorem settled_exec {call : SessionCall} (h : Settled hasher s) (hextends : Extends s call)
    (hsupplied : Supplied s call) : Settled hasher (exec hasher s call) := by
  cases call with
  | setTokens fullTokenIds => exact h.setTokens hextends
  | getHashes start stop => exact h.getHashes hsupplied

theorem settled_final {calls : List SessionCall}
    (hextends : Execution.Along (exec hasher) Extends create calls)
    (hsupplied : Execution.Along (exec hasher) Supplied create calls) :
    Settled hasher (Execution.final (exec hasher) create calls) :=
  Execution.invariant_final (I := Settled hasher) (fun _ _ h hq => settled_exec h hq.1 hq.2)
    (settled_create hasher) (hextends.and hsupplied)

theorem answer_eq (h : Settled hasher s) (startChunk endChunk : ℕ) :
    s.answer hasher (startChunk * hasher.chunkSize) (endChunk * hasher.chunkSize) =
      .ok ((List.range' startChunk (endChunk - startChunk)).map (hasher.chunkHash s.tokenIds)) := by
  obtain ⟨s', hs', _⟩ := getHashes_eq h.computed startChunk endChunk fun _ _ => rfl
  rw [answer, hs']
  simp only [Except.map, List.map_map]
  rfl

theorem map_range'_inj {A : Type} {f : ℕ → A} {start m n : ℕ} :
    (List.range' start m).map f = (List.range' start n).map f ↔ m = n := by
  constructor
  · intro h
    simpa using congrArg List.length h
  · rintro rfl
    rfl

theorem Settled.agrees_iff (h : Settled hasher s) {start stop : ℕ}
    (hstart : hasher.chunkSize ∣ start) (hstop : hasher.chunkSize ∣ stop) (hle : start ≤ stop) :
    Agrees hasher s start stop ↔ start = stop ∨ stop ≤ s.tokenIds.length := by
  have hpos := hasher.chunkSizePos
  obtain ⟨startChunk, rfl⟩ := hstart
  obtain ⟨endChunk, rfl⟩ := hstop
  rw [Nat.mul_comm _ startChunk, Nat.mul_comm _ endChunk] at *
  have hchunks : startChunk ≤ endChunk := Nat.le_of_mul_le_mul_right hle hpos
  rw [Agrees, answer_eq h, hasher.computeChunkHashes_eq, Except.ok.injEq, map_range'_inj,
    Option.map_some, Option.getD_some, Nat.mul_right_cancel_iff hpos]
  rcases Nat.le_total (endChunk * hasher.chunkSize) s.tokenIds.length with hlen | hlen
  · rw [Nat.min_eq_right hlen, Nat.mul_div_cancel _ hpos]
    exact iff_of_true rfl (.inr hlen)
  · rw [Nat.min_eq_left hlen]
    rcases Nat.eq_or_lt_of_le hlen with heq | hlt
    · rw [heq, Nat.mul_div_cancel _ hpos]
      exact iff_of_true rfl (.inr le_rfl)
    · have hdiv : s.tokenIds.length / hasher.chunkSize < endChunk :=
        (Nat.div_lt_iff_lt_mul hpos).mpr hlt
      constructor
      · intro hcount
        exact .inl (by omega)
      · rintro (rfl | hge)
        · omega
        · omega

theorem agrees_iff_supplied (hasher : TokenHasher H B) (calls : List SessionCall)
    (hextends : Execution.Along (exec hasher) Extends create calls)
    (hsupplied : Execution.Along (exec hasher) Supplied create calls) {start stop : ℕ}
    (hstart : hasher.chunkSize ∣ start) (hstop : hasher.chunkSize ∣ stop) (hle : start ≤ stop) :
    Agrees hasher (Execution.final (exec hasher) create calls) start stop ↔
      start = stop ∨ stop ≤ (Execution.final (exec hasher) create calls).tokenIds.length :=
  (settled_final hextends hsupplied).agrees_iff hstart hstop hle

def pairHasher : TokenHasher (List ℕ) (List ℕ) := ⟨2, (· ++ ·), [], id, Nat.two_pos⟩

def grownTokens : List SessionCall :=
  [.setTokens [1, 2, 3], .getHashes 0 2, .setTokens [1, 2, 3, 4]]

theorem agrees_iff_supplied_grownTokens :
    Agrees pairHasher (Execution.final (exec pairHasher) create grownTokens) 0 4 ↔
      0 = 4 ∨ 4 ≤ (Execution.final (exec pairHasher) create grownTokens).tokenIds.length :=
  agrees_iff_supplied pairHasher grownTokens (by decide +kernel) (by decide +kernel)
    (by decide) (by decide) (by decide)

def hashedTooEarly : List SessionCall :=
  [.setTokens [1, 2, 3], .getHashes 0 4, .setTokens [1, 2, 3, 4]]

theorem not_agrees_hashedTooEarly :
    ¬ ∀ (calls : List SessionCall) (start stop : ℕ),
      Execution.Along (exec pairHasher) Extends create calls → pairHasher.chunkSize ∣ start →
      pairHasher.chunkSize ∣ stop → start ≤ stop →
      Agrees pairHasher (Execution.final (exec pairHasher) create calls) start stop := by
  intro h
  have hagrees := h hashedTooEarly 0 4 (by decide +kernel) (by decide) (by decide) (by decide)
  simp only [Agrees] at hagrees
  exact absurd hagrees (by decide +kernel)

end Session

end LMCache
