import Mathlib.Algebra.Order.Round
import Mathlib.Tactic.Ring

namespace Broadcast

open List

def commonFrom : List ℕ → List ℕ → Option (List ℕ)
  | [], ts => some ts
  | ss, [] => some ss
  | s :: ss, t :: ts => do
      let rest ← commonFrom ss ts
      if s = t ∨ t = 1 then return s :: rest
      else if s = 1 then return t :: rest
      else none

def common (shape other : List ℕ) : Option (List ℕ) :=
  (commonFrom shape.reverse other.reverse).map reverse

def pinned (shape index : List ℕ) : List ℕ :=
  zipWith (fun size i => if size = 1 then 0 else i) shape index

def source (shape index : List ℕ) : List ℕ :=
  pinned shape (index.drop (index.length - shape.length))

def Within (index shape : List ℕ) : Prop := List.Forall₂ (· < ·) index shape

variable (shape : List ℕ)

def keepLast : List ℕ :=
  if shape = [] then [] else shape.dropLast ++ [1]

@[simp] theorem keepLast_nil : keepLast [] = [] := rfl

@[simp] theorem keepLast_concat (size : ℕ) : keepLast (shape ++ [size]) = shape ++ [1] := by
  rw [keepLast, if_neg (append_ne_nil_of_right_ne_nil _ (cons_ne_nil _ _)), dropLast_concat]

theorem commonFrom_self : commonFrom shape shape = some shape := by
  induction shape with
  | nil => rfl
  | cons size shape ih => simp [commonFrom, ih]

theorem common_self : common shape shape = some shape := by
  rw [common, commonFrom_self, Option.map_some, reverse_reverse]

theorem common_keepLast : common shape (keepLast shape) = some shape := by
  rcases shape.eq_nil_or_concat with rfl | ⟨shape, size, rfl⟩
  · rfl
  · rw [concat_eq_append, keepLast_concat, common, reverse_append, reverse_append]
    simp [commonFrom, commonFrom_self]

variable {index shape : List ℕ}

theorem pinned_of_within (h : Within index shape) : pinned shape index = index := by
  induction h with
  | nil => rfl
  | @cons i size index shape hlt _ ih =>
    rw [pinned, zipWith_cons_cons, ← pinned, ih]
    split_ifs with hone
    · obtain rfl : i = 0 := by omega
      rfl
    · rfl

theorem source_eq_pinned (h : index.length = shape.length) :
    source shape index = pinned shape index := by
  rw [source, h, Nat.sub_self, drop_zero]

theorem source_of_within (h : Within index shape) : source shape index = index := by
  rw [source_eq_pinned h.length_eq, pinned_of_within h]

theorem within_concat_iff {outer shape : List ℕ} {i size : ℕ} :
    Within (outer ++ [i]) (shape ++ [size]) ↔ Within outer shape ∧ i < size := by
  rw [Within, ← forall₂_reverse_iff]
  simp only [reverse_append, reverse_singleton, singleton_append, forall₂_cons, forall₂_reverse_iff]
  exact and_comm

theorem Within.nil_or_concat (h : Within index shape) :
    index = [] ∧ shape = [] ∨ ∃ outer i dims size, index = outer ++ [i] ∧ shape = dims ++ [size] ∧
      Within outer dims ∧ i < size := by
  rcases shape.eq_nil_or_concat with rfl | ⟨dims, size, rfl⟩
  · exact .inl ⟨forall₂_nil_right_iff.mp h, rfl⟩
  · rcases index.eq_nil_or_concat with rfl | ⟨outer, i, rfl⟩
    · cases dims <;> cases h
    · rw [concat_eq_append, concat_eq_append] at h
      exact .inr ⟨outer, i, dims, size, concat_eq_append, concat_eq_append, within_concat_iff.mp h⟩

theorem source_keepLast_concat {outer shape : List ℕ} (h : Within outer shape) (i : ℕ) :
    source (shape ++ [1]) (outer ++ [i]) = outer ++ [0] := by
  have hlength := h.length_eq
  rw [source_eq_pinned (by simp [hlength]), pinned, zipWith_append hlength.symm, ← pinned,
    pinned_of_within h]
  rfl

theorem source_source_keepLast (h : Within index shape) :
    source (keepLast shape) (source (keepLast shape) index) = source (keepLast shape) index := by
  rcases h.nil_or_concat with ⟨rfl, rfl⟩ | ⟨outer, i, dims, size, rfl, rfl, houter, _⟩
  · rfl
  · rw [keepLast_concat, source_keepLast_concat houter, source_keepLast_concat houter]

end Broadcast

namespace Quantization

def clamp (low high n : ℤ) : ℤ := max low (min high n)

theorem clamp_of_abs_le {low high m n : ℤ} (hlow : low ≤ -m) (hhigh : m ≤ high) (h : |n| ≤ m) :
    clamp low high n = n := by
  have hn := abs_le.mp h
  rw [clamp, min_eq_right (hn.2.trans hhigh), max_eq_right (hlow.trans hn.1)]

variable {K : Type} [Field K] [LinearOrder K]

def stepOf (n : ℕ) (floor m : K) : K := max (m / n) floor

theorem stepOf_pos {floor : K} (hfloor : 0 < floor) (n : ℕ) (m : K) : 0 < stepOf n floor m :=
  hfloor.trans_le (le_max_right _ _)

variable [IsStrictOrderedRing K]

theorem abs_div_stepOf_le {n : ℕ} (hn : 0 < n) {floor m x : K} (hfloor : 0 < floor)
    (h : |x| ≤ m) : |x / stepOf n floor m| ≤ n := by
  have hpos := stepOf_pos hfloor n m
  have hreach : m ≤ n * stepOf n floor m := by
    rw [← div_le_iff₀' (Nat.cast_pos.mpr hn)]
    exact le_max_left _ _
  rw [abs_div, abs_of_pos hpos, div_le_iff₀ hpos]
  exact h.trans hreach

variable [FloorRing K]

def roundHalfEven (x : K) : ℤ := if 2 * Int.fract x = 1 ∧ 2 ∣ ⌊x⌋ then ⌊x⌋ else round x

theorem abs_sub_roundHalfEven_le (x : K) : |x - roundHalfEven x| ≤ 1 / 2 := by
  rw [roundHalfEven]
  split_ifs with h
  · have hfract : x - ⌊x⌋ = 1 / 2 := by
      rw [Int.self_sub_floor]
      linarith [h.1]
    rw [hfract, abs_of_nonneg (by norm_num)]
  · exact abs_sub_round x

theorem abs_roundHalfEven_le {x : K} {n : ℕ} (h : |x| ≤ n) : |roundHalfEven x| ≤ (n : ℤ) := by
  have hnear := abs_le.mp (abs_sub_roundHalfEven_le x)
  have hx := abs_le.mp h
  have hlow : (-(n : ℤ) - 1 : ℤ) < roundHalfEven x := by
    have hcast : ((-(n : ℤ) - 1 : ℤ) : K) < roundHalfEven x := by
      push_cast
      linarith [hnear.2, hx.1]
    exact_mod_cast hcast
  have hhigh : roundHalfEven x < (n : ℤ) + 1 := by
    have hcast : (roundHalfEven x : K) < (((n : ℤ) + 1 : ℤ) : K) := by
      push_cast
      linarith [hnear.1, hx.2]
    exact_mod_cast hcast
  rw [abs_le]
  omega

theorem abs_sub_mul_roundHalfEven_le {s : K} (hs : 0 < s) (x : K) :
    |x - roundHalfEven (x / s) * s| ≤ s / 2 := by
  have hscaled : x - roundHalfEven (x / s) * s = (x / s - roundHalfEven (x / s)) * s := by
    rw [sub_mul, div_mul_cancel₀ x hs.ne']
  calc |x - roundHalfEven (x / s) * s| = |x / s - roundHalfEven (x / s)| * s := by
        rw [hscaled, abs_mul, abs_of_pos hs]
    _ ≤ 1 / 2 * s := mul_le_mul_of_nonneg_right (abs_sub_roundHalfEven_le _) hs.le
    _ = s / 2 := by ring

end Quantization

namespace RowMajor

def volume (dims : List (ℕ × ℕ)) : ℕ := (dims.map Prod.fst).prod

def index : List (ℕ × ℕ) → ℕ
  | [] => 0
  | dim :: dims => dim.2 * volume dims + index dims

def Within (dims : List (ℕ × ℕ)) : Prop := ∀ dim ∈ dims, dim.2 < dim.1

theorem volume_nil : volume [] = 1 := rfl

theorem volume_cons (dim : ℕ × ℕ) (dims : List (ℕ × ℕ)) :
    volume (dim :: dims) = dim.1 * volume dims := List.prod_cons

variable {dims : List (ℕ × ℕ)}

theorem index_lt (h : Within dims) : index dims < volume dims := by
  induction dims with
  | nil => exact Nat.one_pos
  | cons dim dims ih =>
    obtain ⟨hdim, hdims⟩ := List.forall_mem_cons.mp h
    calc dim.2 * volume dims + index dims
        < dim.2 * volume dims + volume dims := Nat.add_lt_add_left (ih hdims) _
      _ = (dim.2 + 1) * volume dims := (Nat.succ_mul _ _).symm
      _ ≤ dim.1 * volume dims := Nat.mul_le_mul_right _ hdim
      _ = volume (dim :: dims) := (volume_cons _ _).symm

theorem index_last (h : ∀ dim ∈ dims, dim.2 + 1 = dim.1) : index dims + 1 = volume dims := by
  induction dims with
  | nil => rfl
  | cons dim dims ih =>
    obtain ⟨hdim, hdims⟩ := List.forall_mem_cons.mp h
    rw [index, Nat.add_assoc, ih hdims, ← Nat.succ_mul, volume_cons, ← hdim]

theorem index_inj {dims dims' : List (ℕ × ℕ)} (hdims : dims.map Prod.fst = dims'.map Prod.fst)
    (h : Within dims) (h' : Within dims') (heq : index dims = index dims') : dims = dims' := by
  induction dims generalizing dims' with
  | nil => exact (List.map_eq_nil_iff.mp hdims.symm).symm
  | cons dim dims ih =>
    obtain ⟨dim', dims', rfl⟩ := List.exists_cons_of_ne_nil (l := dims')
      (by rintro rfl; cases hdims)
    rw [List.map_cons, List.map_cons, List.cons_eq_cons] at hdims
    have hrest := (List.forall_mem_cons.mp h).2
    have hrest' := (List.forall_mem_cons.mp h').2
    have hvolume : volume dims' = volume dims := congrArg List.prod hdims.2.symm
    have hlt := index_lt hrest
    have hlt' := index_lt hrest'
    rw [index, index, hvolume] at heq
    rw [hvolume] at hlt'
    have hfirst : dim.2 = dim'.2 := by
      have hdiv := congrArg (· / volume dims) heq
      simpa only [Nat.mul_add_div (Nat.zero_lt_of_lt hlt), Nat.mul_comm _ (volume dims),
        Nat.div_eq_of_lt hlt, Nat.div_eq_of_lt hlt', Nat.add_zero] using hdiv
    rw [hfirst, Nat.add_left_cancel_iff] at heq
    rw [ih hdims.2 hrest hrest' heq, Prod.ext hdims.1 hfirst]

theorem exists_index {n : ℕ} (dims : List ℕ) (h : n < dims.prod) :
    ∃ is : List ℕ, is.length = dims.length ∧ Within (dims.zip is) ∧ index (dims.zip is) = n := by
  induction dims generalizing n with
  | nil => exact ⟨[], rfl, by simp [Within], by rw [Nat.lt_one_iff.mp h]; rfl⟩
  | cons dim dims ih =>
    rw [List.prod_cons] at h
    have hpos : 0 < dims.prod := Nat.pos_of_ne_zero fun hzero => by simp [hzero] at h
    obtain ⟨is, hlen, hwithin, hindex⟩ := ih (Nat.mod_lt n hpos)
    have hvolume : volume (dims.zip is) = dims.prod := by
      rw [volume, List.map_fst_zip hlen.ge]
    refine ⟨n / dims.prod :: is, congrArg (· + 1) hlen, ?_, ?_⟩
    · rw [List.zip_cons_cons]
      exact List.forall_mem_cons.mpr ⟨Nat.div_lt_of_lt_mul (by rwa [Nat.mul_comm]), hwithin⟩
    · rw [List.zip_cons_cons, index, hindex, hvolume, Nat.div_add_mod']

end RowMajor

namespace Copies

variable {I J V : Type} [DecidableEq I]

def copyAll (pairs : List (I × J)) (source : J → V) (target : I → V) : I → V :=
  pairs.foldl (fun target p => Function.update target p.1 (source p.2)) target

variable {pairs : List (I × J)} {source : J → V} {target : I → V} {i : I} {v : V}

theorem copyAll_of_notMem (h : ∀ p ∈ pairs, p.1 ≠ i) : copyAll pairs source target i = target i := by
  induction pairs generalizing target with
  | nil => rfl
  | cons p pairs ih =>
    obtain ⟨hp, hpairs⟩ := List.forall_mem_cons.mp h
    exact (ih hpairs).trans (Function.update_of_ne hp.symm _ _)

theorem copyAll_of_mem (h : ∃ p ∈ pairs, p.1 = i) (hv : ∀ p ∈ pairs, p.1 = i → source p.2 = v) :
    copyAll pairs source target i = v := by
  induction pairs generalizing target with
  | nil => simp at h
  | cons p pairs ih =>
    obtain ⟨hp, hpairs⟩ := List.forall_mem_cons.mp hv
    by_cases hrest : ∃ q ∈ pairs, q.1 = i
    · exact ih hrest hpairs
    · have hfirst : p.1 = i := by
        obtain ⟨q, hq, hqi⟩ := h
        rcases List.mem_cons.mp hq with rfl | hq
        · exact hqi
        · exact absurd ⟨q, hq, hqi⟩ hrest
      refine (copyAll_of_notMem fun q hq hqi => hrest ⟨q, hq, hqi⟩).trans ?_
      subst hfirst
      exact (Function.update_self _ _ _).trans (hp rfl)

end Copies
