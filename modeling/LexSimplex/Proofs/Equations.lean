import LexSimplex.Proofs.Solutions

/-!
# The equations of constraints

What a constraint says, as an equation: its expression with numbers for the variables that were
folded into it, and the terms of its own variables. A draft's expression is this equation in
terms of the tableau, up to the sign, so in every solution one holds where the other does.

## Main definitions

* `Constraint.resolve`: the value of a variable, or the number that stands for it.
* `Constraint.Fit`: a constraint's own variables fit its parts.

## Main results

* `Constraint.eval_expr`, `Constraint.eval_equation`: the values of its expressions.
* `Constraint.Fit.holds_update_marker_iff`: an equation can be solved for its marker.
* `Tableau.Linked.stated`: a draft has the equation of its constraint.
-/

namespace LexSimplex

open Function (update update_self update_of_ne)

namespace Constraint

variable {c : Constraint Rat} {a : Assignment} {v : VarId}

/-- The value of a variable, or the number by which the constraint has it. -/
def resolve (c : Constraint Rat) (a : Assignment) (v : VarId) : Rat :=
  (c.values.get? v).getD (a v)

/-- The terms of a constraint's expression, each with a value or with its number. -/
theorem eval_expr (c : Constraint Rat) (a : Assignment) :
    c.expr.eval a = c.request.expr.constant +
      (c.request.expr.terms.map fun term => term.2 * c.resolve a term.1).sum := by
  have hstart : (⟨c.request.expr.constant, []⟩ : LinExpr Rat).eval a =
      c.request.expr.constant := by
    simp [LinExpr.eval]
  rw [expr]
  refine Eq.trans ?_ (congrArg (· + _) hstart)
  generalize (⟨c.request.expr.constant, []⟩ : LinExpr Rat) = e
  induction c.request.expr.terms generalizing e with
  | nil => simp
  | cons term terms ih =>
      rw [List.foldl_cons, List.map_cons, List.sum_cons, ih, resolve]
      cases c.values.get? term.1 with
      | some x =>
          have hvalue : (e.constant + term.2 * x) + (e.terms.map fun term =>
              term.2 * a term.1).sum = e.eval a + term.2 * x := by
            rw [LinExpr.eval]
            ring
          rw [Option.getD_some, ← add_assoc]
          exact congrArg (· + _) hvalue
      | none =>
          simp only [LinExpr.eval, List.map_append, List.sum_append, List.map_cons, List.map_nil,
            List.sum_cons, List.sum_nil, Option.getD_none]
          ring

/-- A constraint's equation has its expression and the terms of its own variables. -/
theorem eval_equation (c : Constraint Rat) (a : Assignment) :
    c.equation.eval a = c.expr.eval a + (c.ownTerms.map fun term => term.2 * a term.1).sum := by
  simp only [equation, LinExpr.eval, List.map_append, List.sum_append]
  ring

/-- A constraint's expression depends on the variables that have no number in it. -/
theorem eval_expr_congr {b : Assignment}
    (h : ∀ w ∈ c.request.expr.vars, c.values.get? w = none → a w = b w) :
    c.expr.eval a = c.expr.eval b := by
  rw [eval_expr, eval_expr]
  congr 2
  refine List.map_congr_left fun term hterm => ?_
  rw [resolve, resolve]
  cases hx : c.values.get? term.1 with
  | some x => rfl
  | none => rw [Option.getD_none, Option.getD_none, h term.1 (List.mem_map_of_mem hterm) hx]

/-- A constraint's own variables **fit** its parts: there is one for each, they are distinct, and
the request does not name them. -/
structure Fit (c : Constraint Rat) : Prop where
  other_isNone : c.tag.other.isNone = c.request.strength.hard
  extra_length : c.tag.extra.length = c.request.errors.length
  nodup : c.tag.vars.Nodup
  notMem : ∀ w ∈ c.tag.vars, w ∉ c.request.expr.vars

/-- The terms of a constraint's own variables are those of its parts. -/
theorem Fit.ownTerms_eq (h : c.Fit) :
    c.ownTerms = c.tag.vars.zip ((parts c.request c.relation).map Part.coefficient) := by
  have hother := h.other_isNone
  have herrors : (c.request.errors.map Part.ofError).map Part.coefficient =
      c.request.errors.map Prod.fst := by
    rw [List.map_map]
    rfl
  rw [ownTerms, Tag.vars, parts, List.map_append, herrors]
  cases hhard : c.request.strength.hard with
  | true =>
      rw [hhard, Option.isNone_iff_eq_none] at hother
      cases c.relation with
      | eq => simp [hother, hhard, pairTerms, relationParts, equalityParts, Part.coefficient]
      | le => simp [hother, hhard, pairTerms, relationParts, inequalityParts, Part.coefficient]
      | ge => simp [hother, hhard, pairTerms, relationParts, inequalityParts, Part.coefficient]
  | false =>
      rw [hhard, ← Option.not_isSome, Bool.not_eq_false', Option.isSome_iff_exists] at hother
      obtain ⟨w, hw⟩ := hother
      cases c.relation with
      | eq => simp [hw, hhard, pairTerms, relationParts, equalityParts, Part.coefficient]
      | le => simp [hw, hhard, pairTerms, relationParts, inequalityParts, Part.coefficient]
      | ge => simp [hw, hhard, pairTerms, relationParts, inequalityParts, Part.coefficient]

/-- An equation has the value of its expression and of its parts at the constraint's own
variables. -/
theorem Fit.eval_equation_parts (h : c.Fit) (a : Assignment) : c.equation.eval a = c.expr.eval a +
    (List.zipWith (fun p x => p.coefficient * x) (parts c.request c.relation)
      (c.tag.vars.map a)).sum := by
  rw [Constraint.eval_equation, h.ownTerms_eq, List.zip_map_right, List.map_map,
    List.zipWith_map_right, List.zip_eq_zipWith, List.map_zipWith, List.zipWith_comm]
  rfl

/-- The first part of a request has a coefficient that is not zero. -/
theorem parts_eq_cons (request : Request Rat) (relation : Relation) :
    ∃ p ps, parts request relation = p :: ps ∧ p.coefficient ≠ 0 := by
  obtain ⟨p, ps, hparts, hp⟩ := LexSimplex.parts_eq_cons request relation
  refine ⟨p, ps, hparts, ?_⟩
  rcases hp with hp | hp
  · rw [hp]
    exact one_ne_zero
  · rw [hp]
    exact neg_ne_zero.mpr one_ne_zero

/-- An equation depends on the variables that the request names, where they have no number, and on
the constraint's own. -/
theorem Fit.holds_congr (h : c.Fit) {b : Assignment}
    (hnamed : ∀ w ∈ c.request.expr.vars, c.values.get? w = none → a w = b w)
    (hown : ∀ w ∈ c.tag.vars, a w = b w) : c.Holds a ↔ c.Holds b := by
  rw [Holds, Holds, eval_equation, eval_equation, eval_expr_congr hnamed]
  have hterms : (c.ownTerms.map fun term => term.2 * a term.1) =
      c.ownTerms.map fun term => term.2 * b term.1 := by
    refine List.map_congr_left fun term hterm => ?_
    rw [h.ownTerms_eq] at hterm
    rw [hown term.1 (List.of_mem_zip hterm).1]
  rw [hterms]

/-- An equation can be solved for its marker, in one way. -/
theorem Fit.holds_update_marker_iff (h : c.Fit) (a : Assignment) :
    ∃ y, ∀ x, c.Holds (update a c.tag.marker x) ↔ x = y := by
  obtain ⟨p, ps, hparts, hp⟩ := parts_eq_cons c.request c.relation
  have hmarker : c.tag.marker ∈ c.tag.vars := List.mem_cons_self
  have hrest : c.tag.marker ∉ c.tag.other.toList ++ c.tag.extra :=
    (List.nodup_cons.mp h.nodup).1
  have hexpr : ∀ x, c.expr.eval (update a c.tag.marker x) = c.expr.eval a := by
    intro x
    refine eval_expr_congr fun w hw _ => update_of_ne ?_ x a
    exact ne_of_mem_of_not_mem hw (h.notMem _ hmarker)
  have hterms : ∀ x, (((c.tag.other.toList ++ c.tag.extra).zip (ps.map Part.coefficient)).map
      fun term => term.2 * update a c.tag.marker x term.1).sum =
      (((c.tag.other.toList ++ c.tag.extra).zip (ps.map Part.coefficient)).map
        fun term => term.2 * a term.1).sum := by
    intro x
    congr 1
    refine List.map_congr_left fun term hterm => ?_
    rw [update_of_ne (ne_of_mem_of_not_mem (List.of_mem_zip hterm).1 hrest)]
  refine ⟨-(c.expr.eval a + (((c.tag.other.toList ++ c.tag.extra).zip
    (ps.map Part.coefficient)).map fun term => term.2 * a term.1).sum) / p.coefficient,
    fun x => ?_⟩
  rw [Holds, eval_equation, h.ownTerms_eq, hparts, Tag.vars, List.map_cons, List.zip_cons_cons,
    List.map_cons, List.sum_cons, hexpr, hterms, update_self, eq_div_iff hp]
  constructor
  · intro hzero
    linarith
  · intro hx
    linarith

/-- A fit constraint holds for some value of its marker. -/
theorem Fit.exists_holds (h : c.Fit) (a : Assignment) :
    ∃ x, c.Holds (update a c.tag.marker x) := by
  obtain ⟨y, hy⟩ := h.holds_update_marker_iff a
  exact ⟨y, (hy y).mpr rfl⟩

end Constraint

/-! ### Drafts -/

namespace Tableau

/-- The number that stands for a variable of an expression, if it is folded. -/
theorem get?_valuesIn {K Q : Type} [Coefficient K] [Precision K Q] (t : Tableau K Q) {e : LinExpr K}
    {v : VarId} (hv : v ∈ e.vars) :
    (t.valuesIn e).get? v =
      ((t.vars.get? v).filter Variable.isFolded).map fun x => Precision.widen x.computed := by
  suffices hlist : ∀ (vs : List VarId), v ∈ vs → Assoc.get? (vs.filterMap fun v =>
      ((t.vars.get? v).filter Variable.isFolded).map fun x =>
        (v, (Precision.widen x.computed : K))) v =
      ((t.vars.get? v).filter Variable.isFolded).map fun x => Precision.widen x.computed from
    hlist e.vars hv
  intro vs
  induction vs with
  | nil => exact fun hnil => absurd hnil List.not_mem_nil
  | cons w vs ih =>
      intro hmem
      rw [List.filterMap_cons]
      cases hx : (t.vars.get? w).filter Variable.isFolded with
      | none =>
          simp only [Option.map_none]
          rcases List.mem_cons.mp hmem with rfl | hmem
          · rw [hx, Option.map_none]
            refine Assoc.get?_eq_none_iff.mpr fun hkey => ?_
            obtain ⟨⟨w', y⟩, hentry, rfl⟩ := List.mem_map.mp hkey
            obtain ⟨u, -, hu⟩ := List.mem_filterMap.mp hentry
            obtain ⟨z, hz, hpair⟩ := Option.map_eq_some_iff.mp hu
            obtain ⟨rfl, -⟩ := Prod.mk.inj hpair
            rw [hx] at hz
            exact absurd hz (by simp)
          · exact ih hmem
      | some x =>
          simp only [Option.map_some]
          rw [Assoc.get?_cons]
          by_cases hvw : v = w
          · rw [if_pos hvw, hvw, hx, Option.map_some]
          · rw [if_neg hvw]
            exact ih ((List.mem_cons.mp hmem).resolve_left hvw)

variable {t t' : Tableau Rat Rat} {a : Assignment} {request : Request Rat}
  {relation : Relation} {e : LinExpr Rat}

/-- An expression in terms of a tableau has the value of the expression in every solution, with
numbers for the folded variables. -/
theorem Linked.eval_express {out : Option RowId} (h : t.Linked out) (hs : t.Satisfies a)
    (hlive : ∀ v ∈ e.vars, t.vars.isLive v) :
    (t.express e).eval a = e.constant +
      (e.terms.map fun term => term.2 * ((t.valuesIn e).get? term.1).getD (a term.1)).sum := by
  suffices hfold : ∀ (terms : Assoc VarId Rat) (d : LinExpr Rat), terms ⊆ e.terms →
      d.vars.Nodup → (terms.foldl t.absorb d).eval a = d.eval a +
        (terms.map fun term =>
          term.2 * ((t.valuesIn e).get? term.1).getD (a term.1)).sum by
    rw [Tableau.express, hfold e.terms ⟨e.constant, []⟩ (List.Subset.refl _) List.nodup_nil]
    simp [LinExpr.eval]
  intro terms
  induction terms with
  | nil => exact fun d _ _ => by simp
  | cons term terms ih =>
      intro d hsub hnodup
      obtain ⟨hterm, hrest⟩ := List.cons_subset.mp hsub
      have hv : term.1 ∈ e.vars := List.mem_map_of_mem hterm
      obtain ⟨x, hx⟩ := VariablePool.isLive_iff.mp (hlive _ hv)
      rw [List.foldl_cons, List.map_cons, List.sum_cons, absorb, hx, t.get?_valuesIn hv, hx]
      dsimp only
      by_cases hfold : x.isFolded
      · rw [if_pos hfold]
        refine (ih ⟨d.constant + term.2 * x.computed, d.terms⟩ hrest hnodup).trans ?_
        rw [Option.filter_some, if_pos hfold, Option.map_some, Option.getD_some, ← add_assoc]
        refine congrArg (· + _) ?_
        rw [LinExpr.eval, LinExpr.eval]
        exact add_right_comm _ _ _
      · rw [if_neg hfold]
        simp only [Option.filter_some, hfold, Bool.false_eq_true, if_false, Option.map_none,
          Option.getD_none]
        cases hdef : t.definition? term.1 with
        | none =>
            dsimp only
            rw [ih _ hrest (LinExpr.nodup_vars_addTerm hnodup _ _), LinExpr.eval_addTerm hnodup]
            ring
        | some r =>
            obtain ⟨hr, hb⟩ := h.definition?_eq_some_iff.mp hdef
            have hholds : a term.1 = r.expr.eval a := hb ▸ hs r hr
            dsimp only
            rw [ih _ hrest (LinExpr.nodup_vars_addScaled hnodup _ _),
              LinExpr.eval_addScaled hnodup, hholds]
            ring

/-- An expression in terms of a normal tableau is normal. -/
theorem normal_express (t : Tableau Rat Rat) (e : LinExpr Rat) : (t.express e).Normal := by
  suffices hfold : ∀ (terms : Assoc VarId Rat) (d : LinExpr Rat), d.Normal →
      (terms.foldl t.absorb d).Normal from
    hfold e.terms ⟨e.constant, []⟩ (LinExpr.Normal.of_terms_eq_nil rfl)
  intro terms
  induction terms with
  | nil => exact fun d hd => hd
  | cons term terms ih =>
      intro d hd
      rw [List.foldl_cons, absorb]
      split
      · exact ih d hd
      · split
        · exact ih _ ⟨hd.nodup, hd.ne_zero⟩
        · split
          · exact ih _ (hd.addTerm _ _)
          · exact ih _ (hd.addScaled _ _)

/-- Joining parts keeps an expression normal. -/
theorem normal_joinParts (t : Tableau Rat Rat) (he : e.Normal) (ps : List (Part Rat)) :
    (t.joinParts e ps).1.Normal := by
  induction ps generalizing t e with
  | nil => exact he
  | cons p ps ih =>
      rw [joinParts_cons]
      exact ih _ (he.setTerm _ _)

/-- Joined parts add the terms of their variables. -/
theorem eval_joinParts (t : Tableau Rat Rat) (he : e.Normal)
    (hlive : ∀ w ∈ e.vars, t.vars.isLive w) (ps : List (Part Rat)) (a : Assignment) :
    (t.joinParts e ps).1.eval a = e.eval a +
      (((t.joinParts e ps).2.1.zip (ps.map Part.coefficient)).map
        fun term => term.2 * a term.1).sum := by
  induction ps generalizing t e with
  | nil => simp [joinParts]
  | cons p ps ih =>
      have hnew : (t.makePart p).1 ∉ e.vars := t.makePart_notMem hlive p
      rw [joinParts_cons]
      dsimp only
      rw [ih _ (he.setTerm _ _) (isLive_setTerm he.nodup hlive p), LinExpr.eval_setTerm he.nodup,
        LinExpr.without_of_notMem hnew]
      simp only [List.map_cons, List.zip_cons_cons, List.sum_cons]
      ring

/-- Giving an equation the sign of its constant keeps it normal. -/
theorem normal_orient (he : e.Normal) : (orient e).Normal := by
  rw [orient]
  by_cases h : e.constant < 0
  · rw [if_pos h]
    exact he.negate
  · rwa [if_neg h]

/-- How far an expression is from zero does not depend on its sign. -/
theorem abs_eval_orient (e : LinExpr Rat) (a : Assignment) :
    |(orient e).eval a| = |e.eval a| := by
  rw [orient]
  by_cases h : e.constant < 0
  · rw [if_pos h, LinExpr.eval_negate, abs_neg]
  · rw [if_neg h]

/-- An equation that is given the sign of its constant has none below zero. -/
theorem constant_orient_nonneg (e : LinExpr Rat) : 0 ≤ (orient e).constant := by
  rw [orient]
  by_cases h : e.constant < 0
  · rw [if_pos h]
    exact neg_nonneg.mpr (le_of_lt h)
  · rw [if_neg h]
    exact not_lt.mp h

/-- What a draft says: its own variables fit, and in the solutions of the tableau it has the
equation of its constraint. -/
structure Stated (t : Tableau Rat Rat) (d : Draft Rat) : Prop where
  fit : d.constraint.Fit
  normal : d.expr.Normal
  mem_marker : d.constraint.tag.marker ∈ d.expr.vars
  constant_nonneg : 0 ≤ d.expr.constant
  eval_iff : ∀ a, t.Satisfies a → (d.expr.eval a = 0 ↔ d.constraint.Holds a)

/-- The constraint of a draft fits. -/
theorem Linked.fit_draft (h : t.Linked none) (hlive : ∀ v ∈ request.expr.vars, t.vars.isLive v)
    (relation : Relation) : (t.draft request relation).1.constraint.Fit := by
  have hjoined := (h.draft request relation).joined
  obtain ⟨tag, hdraft, -, -, hother, hextra⟩ := t.draft_eq request relation
  rw [hdraft] at hjoined ⊢
  refine ⟨hother, hextra, hjoined.nodup, fun w hw hmem => ?_⟩
  exact hjoined.notMem_of_isLive (hlive w hmem) hw

/-- In a solution of the tableau, a draft is as far from zero as the equation of its constraint. -/
theorem Linked.abs_eval_draft (h : t.Linked none)
    (hlive : ∀ v ∈ request.expr.vars, t.vars.isLive v) (relation : Relation)
    (ha : t.Satisfies a) : |(t.draft request relation).1.expr.eval a| =
      |(t.draft request relation).1.constraint.equation.eval a| := by
  have hterm : ∀ w ∈ (t.express request.expr).vars, t.acquireRow.2.vars.isLive w := by
    intro w hw
    rw [vars_acquireRow]
    exact ((h.express request.expr).2 w hw).1
  have hown := (h.fit_draft hlive relation).ownTerms_eq
  obtain ⟨tag, hdraft, hvars, -⟩ := t.draft_eq request relation
  rw [hdraft] at hown ⊢
  rw [abs_eval_orient, Constraint.eval_equation, hown, Constraint.eval_expr, joined,
    eval_joinParts _ (t.normal_express request.expr) hterm, h.eval_express ha hlive, hvars]
  rfl

/-- The **draft** of a request has the equation of its constraint. -/
theorem Linked.stated (h : t.Linked none) (hlive : ∀ v ∈ request.expr.vars, t.vars.isLive v)
    (relation : Relation) : t.Stated (t.draft request relation).1 := by
  obtain ⟨tag, hdraft, -⟩ := t.draft_eq request relation
  refine ⟨h.fit_draft hlive relation, ?_, ?_, ?_, fun a ha => ?_⟩
  · rw [hdraft]
    exact normal_orient (normal_joinParts _ (t.normal_express request.expr) _)
  · exact h.marker_mem_draft (by decide) (by decide) request relation
  · rw [hdraft]
    exact constant_orient_nonneg _
  · rw [Constraint.Holds, ← abs_eq_zero, h.abs_eval_draft hlive relation ha, abs_eq_zero]

end Tableau

end LexSimplex
