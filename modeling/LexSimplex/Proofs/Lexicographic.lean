import Mathlib.Algebra.Order.BigOperators.Group.List
import Mathlib.Algebra.Order.Group.PiLex
import Mathlib.Data.Fin.VecNotation
import Mathlib.Tactic.Push
import LexSimplex.Proofs.Values

/-!
# The order of tier vectors

In exact arithmetic the sign of a tier vector is that of a **linear order** on numbers by tier: two
families of numbers are compared at the strongest tier at which they differ. The order is compatible
with sums and with factors that are not negative, so a goal in which every term has the right sign
has its constant for a bound.

## Main definitions

* `Ranking`, `byTier`: numbers by tier, in lexicographic order.
* `TierVector.AtMost`: the order as the comparison of vectors decides it.

## Main results

* `TierVector.leading?_eq_some_iff`: the leading coefficient, in any arithmetic.
* `TierVector.sign_eq_lt_iff`, `TierVector.atMost_iff`: signs and comparisons are those of the
  order.
* `Goal.byTier_constant_le`, `Goal.exists_byTier_neg`: a goal and the signs of its terms.
-/

namespace LexSimplex

/-- The tiers by rank, strongest first. -/
def Strength.ofRank : Fin 9 → Strength :=
  ![.fixed, .centering, .barrier, .equality, .highest, .high, .medium, .low, .none]

/-- Numbers by rank of their tier. They are a type of its own so that it has the one order. -/
def Ranking : Type :=
  Lex (Fin 9 → Rat)

noncomputable instance : LinearOrder Ranking :=
  inferInstanceAs (LinearOrder (Lex (Fin 9 → Rat)))

instance : AddCommGroup Ranking :=
  inferInstanceAs (AddCommGroup (Lex (Fin 9 → Rat)))

instance : IsOrderedAddMonoid Ranking :=
  inferInstanceAs (IsOrderedAddMonoid (Lex (Fin 9 → Rat)))

/-- Numbers by tier in **lexicographic order**: the strongest tier at which two families differ
decides. -/
def byTier (f : Strength → Rat) : Ranking :=
  toLex fun i => f (.ofRank i)

variable {f g : Strength → Rat} {x : Rat}

/-- What is zero at every tier is zero. -/
@[simp] theorem byTier_zero : byTier (fun _ => 0) = 0 :=
  rfl

/-- Addition is tier by tier. -/
theorem byTier_add (f g : Strength → Rat) : byTier (fun s => f s + g s) = byTier f + byTier g :=
  rfl

/-- Subtraction is tier by tier. -/
theorem byTier_sub (f g : Strength → Rat) : byTier (fun s => f s - g s) = byTier f - byTier g :=
  rfl

/-- Negation is tier by tier. -/
theorem byTier_neg (f : Strength → Rat) : byTier (fun s => -f s) = -byTier f :=
  rfl

/-- Every tier has a rank. -/
theorem Strength.exists_ofRank (s : Strength) : ∃ i, Strength.ofRank i = s := by
  cases s
  · exact ⟨8, rfl⟩
  · exact ⟨7, rfl⟩
  · exact ⟨6, rfl⟩
  · exact ⟨5, rfl⟩
  · exact ⟨4, rfl⟩
  · exact ⟨3, rfl⟩
  · exact ⟨2, rfl⟩
  · exact ⟨1, rfl⟩
  · exact ⟨0, rfl⟩

/-- What has the same place in the order is the same at every tier. -/
theorem byTier_injective : Function.Injective byTier := by
  intro f g h
  funext s
  obtain ⟨i, rfl⟩ := s.exists_ofRank
  exact congrFun (congrArg ofLex h) i

/-- A family is below zero if the first number that is not zero is. -/
theorem byTier_neg_iff :
    byTier f < 0 ↔ ∃ i, (∀ j < i, f (.ofRank j) = 0) ∧ f (.ofRank i) < 0 :=
  Iff.rfl

/-- What is above zero is so at the first tier at which it is not zero. -/
theorem byTier_pos_iff :
    0 < byTier f ↔ ∃ i, (∀ j < i, 0 = f (.ofRank j)) ∧ 0 < f (.ofRank i) :=
  Iff.rfl

/-- A family below zero has a number below zero. -/
theorem exists_neg_of_byTier_neg (h : byTier f < 0) : ∃ s, f s < 0 := by
  obtain ⟨i, -, hi⟩ := byTier_neg_iff.mp h
  exact ⟨_, hi⟩

/-- A family without a number below zero is not below zero. -/
theorem byTier_nonneg (h : ∀ s, 0 ≤ f s) : 0 ≤ byTier f := by
  by_contra hneg
  obtain ⟨s, hs⟩ := exists_neg_of_byTier_neg (not_le.mp hneg)
  exact absurd (h s) (not_le.mpr hs)

/-- A factor that is not negative keeps a family from falling below zero. -/
theorem byTier_mul_nonneg (hf : 0 ≤ byTier f) (hx : 0 ≤ x) : 0 ≤ byTier fun s => f s * x := by
  rcases hx.eq_or_lt with rfl | hx
  · simp
  · rcases hf.eq_or_lt with hf | hf
    · have hzero : f = fun _ => 0 := byTier_injective hf.symm
      simp [hzero]
    · obtain ⟨i, hbefore, hi⟩ := byTier_pos_iff.mp hf
      refine le_of_lt (byTier_pos_iff.mpr ⟨i, fun j hj => ?_, mul_pos hi hx⟩)
      rw [← hbefore j hj, zero_mul]

/-- A multiple is below zero only where the signs differ. -/
theorem byTier_mul_neg (h : byTier (fun s => f s * x) < 0) :
    (byTier f < 0 ∧ 0 < x) ∨ (0 < byTier f ∧ x < 0) := by
  have hneg : byTier (fun s => -f s * -x) = byTier fun s => f s * x := by simp
  rcases lt_trichotomy x 0 with hx | rfl | hx
  · refine .inr ⟨?_, hx⟩
    by_contra hf
    have hopposite : 0 ≤ byTier fun s => -f s := by
      rw [byTier_neg]
      exact neg_nonneg.mpr (not_lt.mp hf)
    have hall := byTier_mul_nonneg hopposite (neg_nonneg.mpr hx.le)
    rw [hneg] at hall
    exact absurd h (not_lt.mpr hall)
  · simp at h
  · refine .inl ⟨?_, hx⟩
    by_contra hf
    exact absurd h (not_lt.mpr (byTier_mul_nonneg (not_lt.mp hf) hx.le))

/-! ### Vectors -/

namespace TierVector

section Leading

variable {K : Type}

/-- The coefficients, strongest tier first. -/
theorem reverse_toList (a : TierVector K) :
    a.toList.reverse = List.ofFn fun i : Fin 9 => a.get (.ofRank i) :=
  rfl

variable [Coefficient K] {a : TierVector K} {x : K}

/-- In any arithmetic, nothing leads where every coefficient is negligible. -/
theorem leading?_eq_none_iff :
    a.leading? = .none ↔ ∀ i, Coefficient.negligible (a.get (.ofRank i)) := by
  rw [leading?, reverse_toList, List.find?_eq_none]
  simp only [List.mem_ofFn, forall_exists_index, forall_apply_eq_imp_iff, Bool.not_eq_true,
    Bool.not_eq_false']

/-- In any arithmetic, the first coefficient that is not negligible leads. -/
theorem leading?_eq_some_iff :
    a.leading? = some x ↔ ∃ i, (∀ j < i, Coefficient.negligible (a.get (.ofRank j))) ∧
      ¬Coefficient.negligible (a.get (.ofRank i)) ∧ a.get (.ofRank i) = x := by
  rw [leading?, reverse_toList, List.find?_eq_some_iff_getElem]
  simp only [List.getElem_ofFn, List.length_ofFn, Bool.not_not, Bool.not_eq_true']
  constructor
  · rintro ⟨hx, i, hi, hix, hbefore⟩
    refine ⟨⟨i, hi⟩, fun j hj => hbefore j hj, ?_, hix⟩
    rw [hix, hx]
    exact Bool.false_ne_true
  · rintro ⟨i, hbefore, hi, rfl⟩
    exact ⟨Bool.eq_false_of_not_eq_true hi, i, i.isLt, rfl, fun j hj => hbefore ⟨j, _⟩ hj⟩

/-- A difference is taken at each tier. -/
@[simp] theorem get_sub (a b : TierVector K) (s : Strength) :
    (a.sub b).get s = a.get s - b.get s :=
  get_ofFn _ s

end Leading

variable {a b : TierVector Rat}

/-- The sign of a vector is the side of zero on which it lies. -/
theorem sign_cases (a : TierVector Rat) : (a.sign = .eq ∧ byTier a.get = 0) ∨
    (a.sign = .lt ∧ byTier a.get < 0) ∨ (a.sign = .gt ∧ 0 < byTier a.get) := by
  cases hlead : a.leading? with
  | none =>
      refine .inl ⟨by rw [sign, hlead], ?_⟩
      have hzero : a.get = fun _ => 0 := by
        funext s
        obtain ⟨i, rfl⟩ := s.exists_ofRank
        exact negligible_iff.mp (leading?_eq_none_iff.mp hlead i)
      rw [hzero, byTier_zero]
  | some c =>
      have hsign : a.sign = if c < 0 then .lt else .gt := by rw [sign, hlead]
      obtain ⟨i, hbefore, hne, rfl⟩ := leading?_eq_some_iff.mp hlead
      simp only [negligible_iff] at hbefore hne
      rcases lt_or_gt_of_ne hne with hneg | hpos
      · exact .inr (.inl ⟨hsign.trans (if_pos hneg), byTier_neg_iff.mpr ⟨i, hbefore, hneg⟩⟩)
      · exact .inr (.inr ⟨hsign.trans (if_neg (not_lt.mpr hpos.le)),
          byTier_pos_iff.mpr ⟨i, fun j hj => (hbefore j hj).symm, hpos⟩⟩)

/-- A vector has the sign below if it is below zero in the order of tiers. -/
theorem sign_eq_lt_iff : a.sign = .lt ↔ byTier a.get < 0 := by
  rcases a.sign_cases with ⟨hs, h⟩ | ⟨hs, h⟩ | ⟨hs, h⟩
  · simp [hs, h]
  · simp [hs, h]
  · simp [hs, h.not_gt]

/-- A vector has the sign above if it is above zero in the order of tiers. -/
theorem sign_eq_gt_iff : a.sign = .gt ↔ 0 < byTier a.get := by
  rcases a.sign_cases with ⟨hs, h⟩ | ⟨hs, h⟩ | ⟨hs, h⟩
  · simp [hs, h]
  · simp [hs, h.not_gt]
  · simp [hs, h]

/-- A vector is **at most** another if their comparison does not find it greater. -/
def AtMost (a b : TierVector Rat) : Prop :=
  a.compare b ≠ .gt

instance (a b : TierVector Rat) : Decidable (a.AtMost b) :=
  inferInstanceAs (Decidable (a.compare b ≠ .gt))

/-- Comparison is that of the lexicographic order. -/
theorem atMost_iff : a.AtMost b ↔ byTier a.get ≤ byTier b.get := by
  have hget : (a.sub b).get = fun s => a.get s - b.get s := funext (get_sub a b)
  rw [AtMost, compare, Ne, sign_eq_gt_iff, hget, byTier_sub, sub_pos, not_lt]

end TierVector

/-! ### Goals -/

namespace Goal

variable {g : Goal Rat} {a : Assignment}

/-- The value of a goal is its constant and the values of its terms. -/
theorem byTier_evalAt (g : Goal Rat) (a : Assignment) :
    byTier (fun s => g.evalAt s a) = byTier g.constant.get +
      (g.terms.map fun term => byTier fun s => term.2.get s * a term.1).sum := by
  have hterms : ∀ terms : Assoc VarId (TierVector Rat),
      byTier (fun s => (terms.map fun term => term.2.get s * a term.1).sum) =
        (terms.map fun term => byTier fun s => term.2.get s * a term.1).sum := by
    intro terms
    induction terms with
    | nil => rfl
    | cons term terms ih =>
        simp only [List.map_cons, List.sum_cons]
        rw [byTier_add, ih]
  simp only [evalAt]
  rw [byTier_add, hterms]

/-- Where no term is below zero the constant is a lower bound. -/
theorem byTier_constant_le
    (h : ∀ term ∈ g.terms, 0 ≤ byTier fun s => term.2.get s * a term.1) :
    byTier g.constant.get ≤ byTier fun s => g.evalAt s a := by
  rw [byTier_evalAt]
  refine le_add_of_nonneg_right (List.sum_nonneg fun y hy => ?_)
  obtain ⟨term, hterm, rfl⟩ := List.mem_map.mp hy
  exact h term hterm

/-- A goal that is below its constant has a term below zero. -/
theorem exists_byTier_neg (h : byTier (fun s => g.evalAt s a) < byTier g.constant.get) :
    ∃ term ∈ g.terms, byTier (fun s => term.2.get s * a term.1) < 0 := by
  by_contra hall
  push Not at hall
  exact absurd (byTier_constant_le hall) (not_le.mpr h)

end Goal

end LexSimplex
