import Mathlib.Algebra.Order.Field.Rat
import LexSimplex.Layout
import LexSimplex.Proofs.FoldCounts

/-!
# What layouts say

The shapes of a layout are written down term by term, and their variables may coincide: two
boxes may share an edge, and an edge may be measured against itself. Then terms meet, merge and
cancel. In exact arithmetic this changes nothing of what a shape says. Whichever of its variables
coincide, its expression has the value that the shape is named for, and what has cancelled is
gone: the expression is normal.

The proof is about requests in general. A request **denotes** a function of the assignment, and
the function is all that has to be followed from one term to the next.

## Main definitions

* `Request.Denotes`: a normal expression with a given value under every assignment.
* `Layout.residual`: the amount by which an assignment misses a layout.
* `Layout.Holds`: what a layout asks of an assignment.

## Main results

* `Request.Denotes.addTerm`, `Request.Denotes.addConstant`: what building up denotes.
* `Layout.denotes_shape`: a shape denotes its residual.
* `Layout.arranged_means`: the constraint that a layout is entered as says what the layout asks.
-/

namespace LexSimplex

/-! ### Requests built term by term -/

namespace Request

variable {r : Request Rat} {terms : Assoc VarId Rat} {f g : Assignment → Rat}

/-- A term that is added adds its value, whether it is new, merges or cancels. -/
theorem sum_plus (h : terms.keys.Nodup) (v : VarId) (c : Rat) (a : Assignment) :
    ((plus terms v c).map fun term => term.2 * a term.1).sum =
      (terms.map fun term => term.2 * a term.1).sum + c * a v := by
  rw [plus]
  cases hx : terms.get? v with
  | none =>
      by_cases hc : Coefficient.negligible c
      · have hzero : c = 0 := negligible_iff.mp hc
        simp only [hc, if_true]
        rw [hzero, zero_mul, add_zero]
      · simp only [hc]
        simp
  | some x =>
      have hsplit := Assoc.sum_swapErase h (fun term : VarId × Rat => term.2 * a term.1) v
      rw [hx, Option.elim_some] at hsplit
      by_cases hsum : Coefficient.negligible (x + c)
      · have herase : ((terms.erase v).map fun term => term.2 * a term.1).sum =
            ((terms.swapErase v).map fun term => term.2 * a term.1).sum :=
          ((Assoc.swapErase_perm h v).symm.map _).sum_eq
        simp only [hsum, if_true]
        rw [herase, hsplit]
        linear_combination -(a v) * negligible_iff.mp hsum
      · have hset : terms.set v (x + c) = terms.insert v (x + c) := by
          rw [Assoc.insert, if_pos]
          rw [Assoc.contains, hx, Option.isSome_some]
        have hinsert :=
          Assoc.sum_insert h (fun term : VarId × Rat => term.2 * a term.1) v (x + c)
        simp only [hsum]
        rw [if_neg Bool.false_ne_true, hset, hinsert, hsplit]
        ring

/-- No term is left with the coefficient zero. -/
theorem ne_zero_plus (h : ∀ term ∈ terms, term.2 ≠ 0) (v : VarId) (c : Rat) :
    ∀ term ∈ plus terms v c, term.2 ≠ 0 := by
  rw [plus]
  cases terms.get? v with
  | none =>
      by_cases hc : Coefficient.negligible c
      · simp only [hc, if_true]
        exact h
      · simp only [hc]
        rw [negligible_iff] at hc
        intro term hterm
        rcases List.mem_append.mp hterm with hterm | hterm
        · exact h term hterm
        · obtain rfl := List.mem_singleton.mp hterm
          exact hc
  | some x =>
      by_cases hsum : Coefficient.negligible (x + c)
      · simp only [hsum, if_true]
        exact fun term hterm => h term (List.mem_filter.mp hterm).1
      · simp only [hsum]
        rw [negligible_iff] at hsum
        intro term hterm
        obtain ⟨term', hterm', rfl⟩ := List.mem_map.mp hterm
        by_cases hv : term'.1 = v
        · simp only [hv, if_true]
          exact hsum
        · simp only [hv, if_false]
          exact h term' hterm'

/-- A request **denotes** a function of the assignment if its expression is normal and has the
value that the function says. -/
structure Denotes (r : Request Rat) (f : Assignment → Rat) : Prop where
  normal : r.expr.Normal
  eval_eq : ∀ a, r.expr.eval a = f a

/-- The empty request denotes zero. -/
theorem denotes_empty : (empty : Request Rat).Denotes fun _ => 0 :=
  ⟨.of_terms_eq_nil rfl, fun _ => by simp [empty, LinExpr.zero, LinExpr.eval]⟩

namespace Denotes

/-- What a request denotes may be written in another way. -/
theorem congr (h : r.Denotes f) (hfg : ∀ a, f a = g a) : r.Denotes g :=
  ⟨h.normal, fun a => (h.eval_eq a).trans (hfg a)⟩

/-- Adding a term to a request adds its value. -/
theorem addTerm (h : r.Denotes f) (v : VarId) (c : Rat) :
    (r.addTerm v c).Denotes fun a => f a + c * a v := by
  refine ⟨⟨nodup_addTerm h.normal.nodup v c, ne_zero_plus h.normal.ne_zero v c⟩, fun a => ?_⟩
  have hsum : (r.addTerm v c).expr.eval a = r.expr.eval a + c * a v := by
    simp only [LinExpr.eval, Request.addTerm]
    rw [add_assoc]
    exact congrArg _ (sum_plus h.normal.nodup v c a)
  rw [hsum, h.eval_eq]

/-- Adding a constant to a request adds it. -/
theorem addConstant (h : r.Denotes f) (c : Rat) : (r.addConstant c).Denotes fun a => f a + c := by
  refine ⟨⟨h.normal.nodup, h.normal.ne_zero⟩, fun a => ?_⟩
  rw [← h.eval_eq]
  exact add_right_comm _ _ _

/-- The strength of a request is not part of what it denotes. -/
theorem setStrength (h : r.Denotes f) (s : Strength) : (r.setStrength s).Denotes f :=
  ⟨h.normal, h.eval_eq⟩

end Denotes

end Request

/-! ### Layouts -/

/-- A clamped value is the nearest one between zero and one. -/
theorem Scalar.clampUnit_eq (x : Rat) : clampUnit x = max 0 (min 1 x) := by
  rw [clampUnit]
  by_cases hneg : x < 0
  · rw [if_pos hneg, max_eq_left ((min_le_right 1 x).trans hneg.le)]
  · rw [if_neg hneg]
    by_cases hone : 1 < x
    · rw [if_pos hone, min_eq_left hone.le, max_eq_right zero_le_one]
    · rw [if_neg hone, min_eq_right (not_lt.mp hone), max_eq_right (not_lt.mp hneg)]

namespace Layout

/-- The amount by which an assignment misses a layout, with its sign. -/
def residual (layout : Layout Rat) (x : Assignment) : Rat :=
  match layout with
  | .equality a b margin | .greater a b margin | .lower a b margin => x a - x b - margin
  | .value a y => x a - y
  | .centering a b marginAB bias c d marginCD =>
    (1 - max 0 (min 1 bias)) * (x a - x b - marginAB) -
      max 0 (min 1 bias) * (x c - x d - marginCD)
  | .ratio a b c d scale => (x a - x b) - scale * (x c - x d)

/-- What a layout asks of an assignment. -/
def Holds (layout : Layout Rat) (x : Assignment) : Prop :=
  match layout with
  | .equality a b margin => x a = x b + margin
  | .greater a b margin => x b + margin ≤ x a
  | .lower a b margin => x a ≤ x b + margin
  | .value a y => x a = y
  | .centering a b marginAB bias c d marginCD =>
    (1 - max 0 (min 1 bias)) * (x a - x b - marginAB) =
      max 0 (min 1 bias) * (x c - x d - marginCD)
  | .ratio a b c d scale => x a - x b = scale * (x c - x d)

/-- The request for an offset denotes by how much the difference exceeds the margin. -/
theorem denotes_offset (a b : VarId) (margin : Rat) :
    (offset a b margin : Request Rat).Denotes fun x => x a - x b - margin := by
  refine (((Request.denotes_empty.addTerm a 1).addTerm b (-1)).addConstant (-margin)).congr
    fun x => ?_
  ring

/-- The request for a position denotes how far off the variable is. -/
theorem denotes_position (a : VarId) (y : Rat) :
    (position a y : Request Rat).Denotes fun x => x a - y := by
  refine ((Request.denotes_empty.addTerm a 1).addConstant (-y)).congr fun x => ?_
  ring

/-- The request for a balance denotes the difference of the two gaps, weighted by the bias. -/
theorem denotes_balance (a b : VarId) (marginAB bias : Rat) (c d : VarId) (marginCD : Rat) :
    (balance a b marginAB bias c d marginCD : Request Rat).Denotes fun x =>
      (1 - Scalar.clampUnit bias) * (x a - x b - marginAB) -
        Scalar.clampUnit bias * (x c - x d - marginCD) := by
  rw [balance]
  generalize Scalar.clampUnit bias = t
  refine (((((Request.denotes_empty.addTerm a (1 - t)).addTerm b (-(1 - t))).addTerm c (-t)).addTerm
    d t).addConstant (t * marginCD - (1 - t) * marginAB)).congr fun x => ?_
  ring

/-- The request for a proportion denotes by how much one difference exceeds the multiple of the
other. -/
theorem denotes_proportion (a b c d : VarId) (scale : Rat) :
    (proportion a b c d scale : Request Rat).Denotes fun x =>
      (x a - x b) - scale * (x c - x d) := by
  refine ((((Request.denotes_empty.addTerm a 1).addTerm b (-1)).addTerm c (-scale)).addTerm
    d scale).congr fun x => ?_
  ring

/-- A **shape** denotes the residual of its layout. -/
theorem denotes_shape (layout : Layout Rat) :
    (layout.shape : Request Rat).Denotes layout.residual := by
  cases layout with
  | equality a b margin => exact denotes_offset a b margin
  | greater a b margin => exact denotes_offset a b margin
  | lower a b margin => exact denotes_offset a b margin
  | value a y => exact denotes_position a y
  | centering a b marginAB bias c d marginCD =>
      refine (denotes_balance a b marginAB bias c d marginCD).congr fun x => ?_
      rw [Scalar.clampUnit_eq, residual]
  | ratio a b c d scale => exact denotes_proportion a b c d scale

/-- A layout holds where its residual stands in its relation to zero. -/
theorem holds_iff_residual (layout : Layout Rat) (x : Assignment) :
    layout.Holds x ↔ layout.relation.Holds (layout.residual x) := by
  cases layout with
  | equality a b margin =>
      have hiff : x a = x b + margin ↔ x a - x b - margin = 0 := by rw [sub_sub, sub_eq_zero]
      exact hiff
  | greater a b margin =>
      have hiff : x b + margin ≤ x a ↔ 0 ≤ x a - x b - margin := by rw [sub_sub, sub_nonneg]
      exact hiff
  | lower a b margin =>
      have hiff : x a ≤ x b + margin ↔ x a - x b - margin ≤ 0 := by rw [sub_sub, sub_nonpos]
      exact hiff
  | value a y => exact sub_eq_zero.symm
  | centering a b marginAB bias c d marginCD => exact sub_eq_zero.symm
  | ratio a b c d scale => exact sub_eq_zero.symm

/-- The constraint that a **layout is entered as** says what the layout asks: its request, at the
strength asked for and with no error terms of its own, has the residual for its value under every
assignment, stands in the layout's relation to zero exactly where the layout holds, and names
each variable once and with a coefficient that is not zero. Any of the layout's variables may
coincide. -/
theorem arranged_means (layout : Layout Rat) (strength : Strength) :
    (∀ s : Solver Rat Rat,
      s.arrange layout strength = s.add (layout.request strength) layout.relation) ∧
    (∀ x, (layout.request strength : Request Rat).expr.eval x = layout.residual x) ∧
    (∀ x, layout.relation.Holds ((layout.request strength : Request Rat).expr.eval x) ↔
      layout.Holds x) ∧
    (layout.request strength : Request Rat).expr.vars.Nodup ∧
    (∀ term ∈ (layout.request strength : Request Rat).expr.terms, term.2 ≠ 0) ∧
    (layout.request strength : Request Rat).strength = strength ∧
    (layout.request strength : Request Rat).errors = [] := by
  have hrequest : (layout.request strength : Request Rat).Denotes layout.residual :=
    layout.denotes_shape.setStrength strength
  refine ⟨fun _ => rfl, hrequest.eval_eq, fun x => ?_, hrequest.normal.nodup,
    hrequest.normal.ne_zero, rfl, ?_⟩
  · rw [hrequest.eval_eq, holds_iff_residual]
  · cases layout <;> rfl

/-- A box of which every edge is the same one, biased to a quarter. The terms cancel and the
margins are left. -/
example : ((Layout.centering ⟨0⟩ ⟨0⟩ (4 : Rat) (1 / 4) ⟨0⟩ ⟨0⟩ 8).request .medium :
    Request Rat).expr = ⟨-1, []⟩ := by decide +kernel

end Layout

end LexSimplex
