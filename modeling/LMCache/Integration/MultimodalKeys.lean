import LMCache.Foundations.Text
import LMCache.Integration.TrackerSteps
import LMCache.TokenDatabase

namespace LMCache

open List ChunkedTokenDatabase Option

def hexDigit (c : Char) : Option ℕ :=
  if '0' ≤ c ∧ c ≤ '9' then some (c.toNat - '0'.toNat)
  else if 'a' ≤ c ∧ c ≤ 'f' then some (c.toNat - 'a'.toNat + 10)
  else if 'A' ≤ c ∧ c ≤ 'F' then some (c.toNat - 'A'.toNat + 10)
  else none

def hexPart (s : List Char) : List Char :=
  match s with
  | '0' :: x :: cs => if x = 'x' ∨ x = 'X' then cs else s
  | _ => s

def hexHashToInt16 (sha256 : List Char → List UInt8) (s : List Char) : ℕ :=
  let stripped := Text.strip s
  let hex := hexPart stripped
  if !hex.isEmpty && hex.all fun c => (hexDigit c).isSome then
    hex.foldl (fun n c => 16 * n + (hexDigit c).getD 0) 0 % 65536
  else ((sha256 stripped).take 2).foldl (fun n b => 256 * n + b.toNat) 0

structure MMInput where
  identifier : List Char
  offset : ℕ
  length : ℕ

namespace MMInput

def covers (input : MMInput) (t : ℕ) : Bool :=
  decide (input.offset ≤ t) && decide (t < input.offset + input.length)

def feature (sha256 : List Char → List UInt8) (input : MMInput) : MMFeature :=
  ⟨hexHashToInt16 sha256 input.identifier, input.offset, input.length⟩

def contentAt (tokens : List ℕ) (inputs : List MMInput) (t : ℕ) : Option (ℕ ⊕ List Char) :=
  tokens[t]?.map fun token =>
    match inputs.find? fun input => input.covers t with
    | some input => .inr input.identifier
    | none => .inl token

end MMInput

structure MultimodalRequest where
  promptTokenIds : List ℕ
  inputs : List MMInput
  disjoint : inputs.Pairwise fun x y => ∀ t, ¬ (x.covers t = true ∧ y.covers t = true)

section Positions

variable (sha256 : List Char → List UInt8)

def foldContent : ℕ ⊕ List Char → ℕ
  | .inl token => token
  | .inr identifier => hexHashToInt16 sha256 identifier

theorem getElem?_applyMmHash (tokens : List ℕ) (input : MMInput) (t : ℕ) :
    (applyMmHash tokens (input.feature sha256))[t]? = tokens[t]?.map fun token =>
      if input.covers t then hexHashToInt16 sha256 input.identifier else token := by
  have hcovers : input.covers t = true ↔ input.offset ≤ t ∧ t < input.offset + input.length := by
    simp [MMInput.covers]
  rw [applyMmHash, MMInput.feature]
  rcases Nat.lt_or_ge t tokens.length with hlt | hge
  · rw [getElem?_eq_getElem hlt, map_some]
    split_ifs with hshort hcovered hcovered
    · exact absurd (hcovers.mp hcovered).1 (by dsimp only at hshort; omega)
    · rw [getElem?_eq_getElem hlt]
    · rw [hcovers] at hcovered
      dsimp only at hshort ⊢
      rw [getElem?_append_left (by simp; omega), getElem?_append_right (by simp; omega),
        getElem?_replicate, if_pos (by simp; omega)]
    · rw [hcovers] at hcovered
      dsimp only at hshort ⊢
      rcases Nat.lt_or_ge t input.offset with hbefore | hafter
      · rw [append_assoc, getElem?_append_left (by simp; omega),
          getElem?_take_of_lt hbefore, getElem?_eq_getElem hlt]
      · rw [getElem?_append_right (by simp; omega), getElem?_drop, ← getElem?_eq_getElem hlt]
        congr 1
        simp
        omega
  · rw [getElem?_eq_none hge, map_none, getElem?_eq_none]
    exact (length_applyMmHash tokens (input.feature sha256)).trans_le hge

theorem getElem?_applyMmHashes {inputs : List MMInput}
    (hdisjoint : inputs.Pairwise fun x y => ∀ t, ¬ (x.covers t = true ∧ y.covers t = true))
    (tokens : List ℕ) (t : ℕ) :
    (applyMmHashesToTokenIds tokens (inputs.map (MMInput.feature sha256)))[t]? =
      (MMInput.contentAt tokens inputs t).map (foldContent sha256) := by
  induction inputs generalizing tokens with
  | nil =>
    rw [MMInput.contentAt, Option.map_map]
    exact map_id'.symm
  | cons input inputs ih =>
    obtain ⟨hfirst, hrest⟩ := pairwise_cons.mp hdisjoint
    rw [map_cons, applyMmHashesToTokenIds, foldl_cons, ← applyMmHashesToTokenIds, ih hrest,
      MMInput.contentAt, MMInput.contentAt, getElem?_applyMmHash, find?_cons, Option.map_map,
      Option.map_map, Option.map_map]
    congr 1
    funext token
    cases hcovers : input.covers t with
    | true =>
      have hnone : (inputs.find? fun input => input.covers t) = none :=
        find?_eq_none.mpr fun other hmem hother => hfirst other hmem t ⟨hcovers, hother⟩
      simp [hnone, foldContent]
    | false =>
      cases hfind : inputs.find? fun input => input.covers t <;> simp [foldContent]

end Positions

namespace MultimodalRequest

variable (sha256 : List Char → List UInt8) (request : MultimodalRequest)

def features : List MMFeature :=
  request.inputs.map (MMInput.feature sha256)

def contentAt (request : MultimodalRequest) (t : ℕ) : Option (ℕ ⊕ List Char) :=
  MMInput.contentAt request.promptTokenIds request.inputs t

def hashedTokenIds : List ℕ :=
  applyMmHashesToTokenIds request.promptTokenIds (request.features sha256)

def LookupMatchesStore : Prop :=
  ∀ (I : Type) (config : SchedulerConfig I) (looked : VllmRequest) (tracker : RequestTracker)
    (loadSpec : Option LoadSpec) (made : ReqMeta) (tokens : List ℕ),
    looked.promptTokenIds = request.promptTokenIds → looked.mmFeatures = request.features sha256 →
    looked.promptTokenIds <+: tokens → looked.allTokenIds <+: tokens →
    tracker.mmFeatures = request.features sha256 → tracker.tokenIds <+: tokens →
    (ReqMeta.fromRequestTracker config.toSaveConfig tracker loadSpec).1 = some made →
      ∀ t < made.tokenIds.length, t < (config.lookupTokenIds looked).length →
        made.tokenIds[t]? = (config.lookupTokenIds looked)[t]?

variable {E : Type} (db : ChunkedTokenDatabase H E)

def Separates (a b : MultimodalRequest) (chunkId : ℕ) : Prop :=
  db.chunkHash (a.hashedTokenIds sha256) chunkId = db.chunkHash (b.hashedTokenIds sha256) chunkId →
    ∀ t < (chunkId + 1) * db.chunkSize, a.contentAt t = b.contentAt t

theorem getElem?_hashedTokenIds (t : ℕ) :
    (request.hashedTokenIds sha256)[t]? = (request.contentAt t).map (foldContent sha256) :=
  getElem?_applyMmHashes sha256 request.disjoint request.promptTokenIds t

variable {t : ℕ} {xs ys : List ℕ}

theorem getElem?_apply_of_eq (h : xs[t]? = ys[t]?) :
    (applyMmHashesToTokenIds xs (request.features sha256))[t]? =
      (applyMmHashesToTokenIds ys (request.features sha256))[t]? := by
  rw [features, getElem?_applyMmHashes sha256 request.disjoint,
    getElem?_applyMmHashes sha256 request.disjoint, MMInput.contentAt, h, MMInput.contentAt]

theorem getElem?_of_isPrefix (h : xs <+: ys) (ht : t < xs.length) :
    xs[t]? = ys[t]? := by
  obtain ⟨rest, rfl⟩ := h
  exact (getElem?_append_left ht).symm

theorem getElem?_lookupTokenIds {I : Type} (config : SchedulerConfig I) (looked : VllmRequest)
    (ht : t < (config.lookupTokenIds looked).length) :
    (config.lookupTokenIds looked)[t]? =
      (if looked.mmFeatures = [] then looked.allTokenIds
        else applyMmHashesToTokenIds looked.promptTokenIds looked.mmFeatures)[t]? := by
  have hcut : ∀ tokens : List ℕ, t < (if 0 < config.skipLastNTokens then
      tokens.take (tokens.length - config.skipLastNTokens) else tokens).length →
        (if 0 < config.skipLastNTokens then tokens.take (tokens.length - config.skipLastNTokens)
          else tokens)[t]? = tokens[t]? := by
    intro tokens hlt
    split_ifs at hlt ⊢
    · rw [length_take] at hlt
      exact getElem?_take_of_lt (by omega)
    · rfl
  rw [SchedulerConfig.lookupTokenIds] at ht ⊢
  cases hfeatures : looked.mmFeatures with
  | nil =>
    rw [hfeatures] at ht
    exact hcut _ ht
  | cons feature features =>
    rw [hfeatures] at ht
    exact hcut _ ht

theorem lookupMatchesStore : request.LookupMatchesStore sha256 := by
  intro I config looked tracker loadSpec made tokens hprompt hlooked hfirst hall htracked hscheduled
    hmade t hstore hlookup
  have hspec := ReqMeta.made_fromRequestTracker config.toSaveConfig tracker loadSpec
  have hlen := hspec.length made hmade
  have htokens : (tracker.tokenIds.take made.tokenIds.length)[t]? = tokens[t]? := by
    rw [getElem?_take_of_lt hstore]
    exact getElem?_of_isPrefix hscheduled (hstore.trans_le hlen)
  have hlookupLen : t < (if looked.mmFeatures = [] then looked.allTokenIds
      else applyMmHashesToTokenIds looked.promptTokenIds looked.mmFeatures).length := by
    have hget := getElem?_lookupTokenIds config looked hlookup
    rw [getElem?_eq_getElem hlookup] at hget
    exact (List.getElem?_eq_some_iff.mp hget.symm).1
  rw [hspec.tokens made hmade, htracked, getElem?_apply_of_eq sha256 request htokens,
    getElem?_lookupTokenIds config looked hlookup]
  split_ifs at hlookupLen ⊢ with hnone
  · rw [← hlooked, hnone]
    exact (getElem?_of_isPrefix hall hlookupLen).symm
  · rw [hlooked]
    refine (getElem?_apply_of_eq sha256 request (getElem?_of_isPrefix hfirst ?_)).symm
    exact hlookupLen.trans_eq (length_applyMmHashes _ _)

theorem chunkHash_hashed_iff (hinj : Function.Injective db.hashFunc) (a b : MultimodalRequest)
    (chunkId : ℕ) :
    db.chunkHash (a.hashedTokenIds sha256) chunkId = db.chunkHash (b.hashedTokenIds sha256) chunkId ↔
      ∀ t < (chunkId + 1) * db.chunkSize,
        (a.contentAt t).map (foldContent sha256) = (b.contentAt t).map (foldContent sha256) := by
  have hstep : ∀ h x h' x', db.chainStep h x = db.chainStep h' x' → h = h' ∧ x = x' := by
    intro h x h' x' heq
    have hinputs := hinj heq
    simp only [canonicalizeHashInputs, getD_some, Prod.mk.injEq, and_true] at hinputs
    exact hinputs
  rw [chunkHash, chunkHash,
    HashChain.foldl_eq_iff_of_length hstep (by simp), and_iff_right rfl, db.map_chunk_eq_iff]
  constructor
  · intro htake t ht
    rw [← getElem?_hashedTokenIds, ← getElem?_hashedTokenIds, ← getElem?_take_of_lt ht, htake,
      getElem?_take_of_lt ht]
  · intro hsame
    refine ext_getElem? fun t => ?_
    rw [getElem?_take, getElem?_take]
    split_ifs with ht
    · rw [getElem?_hashedTokenIds, getElem?_hashedTokenIds, hsame t ht]
    · rfl

def Distinguished (a b : MultimodalRequest) (chunkId : ℕ) : Prop :=
  (∀ t < (chunkId + 1) * db.chunkSize, a.contentAt t = b.contentAt t) ∨
    ∃ t < (chunkId + 1) * db.chunkSize,
      (a.contentAt t).map (foldContent sha256) ≠ (b.contentAt t).map (foldContent sha256)

theorem ownKeys_iff (hinj : Function.Injective db.hashFunc) (a b : MultimodalRequest) (chunkId : ℕ) :
    (a.LookupMatchesStore sha256 ∧ b.LookupMatchesStore sha256) ∧ Separates sha256 db a b chunkId ↔
      Distinguished sha256 db a b chunkId := by
  rw [and_iff_right ⟨lookupMatchesStore sha256 a, lookupMatchesStore sha256 b⟩, Separates,
    chunkHash_hashed_iff sha256 db hinj, imp_iff_or_not, Distinguished]
  refine or_congr_right ?_
  push Not
  rfl

def imageOf (identifier : List Char) : MultimodalRequest where
  promptTokenIds := [9, 9]
  inputs := [⟨identifier, 0, 2⟩]
  disjoint := pairwise_singleton _ _

theorem ownKeys_imageOf :
    ((imageOf ['1']).LookupMatchesStore (fun _ => []) ∧
        (imageOf ['2']).LookupMatchesStore (fun _ => [])) ∧
      Separates (fun _ => []) (.spelled 2 true Nat.two_pos) (imageOf ['1']) (imageOf ['2']) 0 :=
  (ownKeys_iff (fun _ => []) (.spelled 2 true Nat.two_pos)
    (spelled_injective 2 true Nat.two_pos) _ _ 0).mpr (.inr ⟨0, by decide, by decide⟩)

theorem not_ownKeys_imageOf : ¬ ∀ (sha256 : List Char → List UInt8)
    (db : ChunkedTokenDatabase (List (List ℕ × List ℕ)) ℕ), Function.Injective db.hashFunc →
      ∀ (a b : MultimodalRequest) (chunkId : ℕ),
        (a.LookupMatchesStore sha256 ∧ b.LookupMatchesStore sha256) ∧
          Separates sha256 db a b chunkId := by
  intro h
  have hseparates := (h (fun _ => []) (.spelled 2 true Nat.two_pos)
    (spelled_injective 2 true Nat.two_pos) (imageOf ['1'])
    (imageOf ['1', '0', '0', '0', '1']) 0).2
  exact absurd (hseparates (by decide) 0 (by decide)) (by decide)

end MultimodalRequest

end LMCache
