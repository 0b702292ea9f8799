import LexSimplex.Proofs.RowsPerConstraint
import LexSimplex.Proofs.Satisfiability

/-!
# Nearness

A request that is refused in exact arithmetic leaves the variables as **near** to it as the
constraints allow: the trial of its draft ends where the draft is least. And a trial that finds the
draft as near to zero as it can be moves no variable. So a refusal shows at most once: where the
request is made again, it is refused again, and nothing changes.

That the solutions of a tableau are convex is what makes this hold. A draft that is not solvable
has the same sign in all of them, so that being near to zero is being small.

No other module needs this. It is a result about refusals in its own right: a refused request may
move the variables, since the exchanges of its trial are not taken back, and what is said here is
where it moves them, and that to insist on it moves them no further.

## Main definitions

* `Tableau.LeastAt`: no solution brings a draft nearer to zero than an assignment does.
* `Tableau.Nearest`: no solution comes nearer to a request than an assignment does.

## Main results

* `Tableau.BasicFeasible.leastAt_trial`: a trial ends where its draft is least.
* `Tableau.BasicFeasible.rowValue_trial`: the trial of a draft that is least moves nothing.
* `Tableau.BasicFeasible.nearest_of_refused`: a refused request leaves the variables nearest to it.
* `Session.Run.refused_again`: a request that was refused is refused again, and changes nothing.
-/

namespace LexSimplex

open Function (update update_self update_of_ne)

/-- Numbers at a single tier are in the order of numbers. -/
theorem byTier_single_le_iff (tier : Strength) {x y : Rat} :
    byTier (fun s => if s = tier then x else 0) ≤ byTier (fun s => if s = tier then y else 0) ↔
      x ≤ y := by
  have hmono : ∀ {x y : Rat}, x ≤ y → byTier (fun s => if s = tier then x else 0) ≤
      byTier fun s => if s = tier then y else 0 := by
    intro x y hxy
    rw [← sub_nonneg, ← byTier_sub]
    refine byTier_nonneg fun s => ?_
    by_cases hs : s = tier
    · rw [if_pos hs, if_pos hs]
      exact sub_nonneg.mpr hxy
    · rw [if_neg hs, if_neg hs, sub_zero]
  refine ⟨fun hle => ?_, hmono⟩
  by_contra hlt
  have hsame := congrFun (byTier_injective (le_antisymm hle (hmono (le_of_not_ge hlt)))) tier
  rw [if_pos rfl, if_pos rfl] at hsame
  exact hlt (le_of_eq hsame)

/-- An expression has a greater value where each of its terms does. -/
theorem LinExpr.eval_le_eval {e : LinExpr Rat} {a b : Assignment}
    (h : ∀ term ∈ e.terms, term.2 * a term.1 ≤ term.2 * b term.1) : e.eval a ≤ e.eval b := by
  rw [eval, eval]
  exact add_le_add_right (List.sum_le_sum h) _

namespace Tableau

variable {t t' m : Tableau Rat Rat} {d : Draft Rat} {art v : VarId} {a b c : Assignment}
  {request : Request Rat} {relation : Relation}

/-! ### Between two solutions -/

/-- What lies between two assignments that respect the kinds respects them. -/
theorem Respects.between (ha : t.Respects a) (hb : t.Respects b) {q : Rat} (hq : 0 ≤ q)
    (hq' : q ≤ 1) : t.Respects (a + q • (b - a)) := by
  intro v
  have hvalue : (a + q • (b - a)) v = (1 - q) * a v + q * b v := by
    rw [Pi.add_apply, Pi.smul_apply, Pi.sub_apply, smul_eq_mul]
    ring
  rw [hvalue]
  refine ⟨fun hk => ?_, fun hk => ?_⟩
  · exact add_nonneg (mul_nonneg (sub_nonneg.mpr hq') ((ha v).1 hk)) (mul_nonneg hq ((hb v).1 hk))
  · rw [(ha v).2 hk, (hb v).2 hk, mul_zero, mul_zero, add_zero]

/-- A draft that is not solvable has the same sign in all solutions that respect the kinds. Between
assignments at which it has both signs there is one that makes its equation. -/
theorem eval_pos_of_not_solvable (hnot : ¬t.Solvable d) (ha : t.Satisfies a)
    (hrespects : t.Respects a) (hnonneg : 0 ≤ d.expr.eval a) (hb : t.Satisfies b)
    (hrespects' : t.Respects b) : 0 < d.expr.eval b := by
  by_contra hneg
  have hpos : 0 < d.expr.eval a :=
    lt_of_le_of_ne hnonneg fun hzero => hnot ⟨a, ha, hrespects, hzero.symm⟩
  have hgap : 0 < d.expr.eval a - d.expr.eval b :=
    sub_pos.mpr (lt_of_le_of_lt (not_lt.mp hneg) hpos)
  set q := d.expr.eval a / (d.expr.eval a - d.expr.eval b) with hq
  have hq' : q ≤ 1 := (div_le_one hgap).mpr (le_sub_self_iff _ |>.mpr (not_lt.mp hneg))
  refine hnot ⟨a + q • (b - a), t.linear_satisfies a b a ha hb ha q,
    hrespects.between hrespects' (div_nonneg hnonneg (le_of_lt hgap)) hq', ?_⟩
  have hcancel : q * (d.expr.eval a - d.expr.eval b) = d.expr.eval a :=
    div_mul_cancel₀ _ (ne_of_gt hgap)
  rw [LinExpr.eval_add_smul_sub, ← neg_sub, mul_neg, hcancel, add_neg_cancel]

/-- Where the variables stand, an expression of variables that are not basic is at its constant. -/
theorem Linked.eval_rowValue {out : Option RowId} (h : t.Linked out) {e : LinExpr Rat}
    (he : ∀ w ∈ e.vars, ¬t.IsBasic w) : e.eval t.rowValue = e.constant := by
  rw [← LinExpr.eval_zero]
  exact LinExpr.eval_congr fun w hw => h.rowValue_of_not_isBasic (he w hw)

/-! ### Drafts -/

/-- A draft is **least** at an assignment if no solution that respects the kinds brings its
expression nearer to zero. -/
def LeastAt (t : Tableau Rat Rat) (d : Draft Rat) (b : Assignment) : Prop :=
  ∀ a, t.Satisfies a → t.Respects a → |d.expr.eval b| ≤ |d.expr.eval a|

/-- What is less and not negative is least too. -/
theorem LeastAt.of_le (h : t.LeastAt d b) (hnonneg : 0 ≤ d.expr.eval c)
    (hle : d.expr.eval c ≤ d.expr.eval b) : t.LeastAt d c := fun a ha hrespects => by
  rw [abs_of_nonneg hnonneg]
  exact hle.trans ((le_abs_self _).trans (h a ha hrespects))

/-- A draft of markers alone is least anywhere. -/
theorem leastAt_of_constant (hconstant : ∀ w ∈ d.expr.vars, t.kind w = .constant)
    (hb : t.Respects b) : t.LeastAt d b := fun a _ hrespects =>
  le_of_eq (congrArg _ (LinExpr.eval_congr fun w hw => by
    rw [(hb w).2 (hconstant w hw), (hrespects w).2 (hconstant w hw)]))

/-- The own variables of a draft that is tried only add to it. -/
theorem Tried.eval_le (h : t.Tried d) (hnodup : d.expr.vars.Nodup) (hb : t.Respects b)
    (hown : ∀ w ∈ d.constraint.tag.vars, c w = 0)
    (hother : ∀ w, w ∉ d.constraint.tag.vars → c w = b w) : d.expr.eval c ≤ d.expr.eval b := by
  obtain ⟨hexternal, hrestricted⟩ := Option.or_eq_none_iff.mp h.1
  refine LinExpr.eval_le_eval fun term hterm => ?_
  by_cases hw : term.1 ∈ d.constraint.tag.vars
  · have hcoef : d.expr.coefficient term.1 = term.2 := by
      rw [LinExpr.coefficient, LinExpr.coefficient?, (Assoc.get?_eq_some_iff hnodup).mpr hterm,
        Option.getD_some]
    rw [hown _ hw, mul_zero]
    rcases (t.kind term.1).eq_or_restricted with hk | hk | hk
    · have hnone := List.find?_eq_none.mp hexternal term.1 (List.mem_map_of_mem hterm)
      exact absurd hk (by simpa using hnone)
    · rw [(hb term.1).2 hk, mul_zero]
    · have hnone := List.find?_eq_none.mp hrestricted term.1 hw
      rw [hk, Bool.true_and, decide_eq_true_iff, hcoef, not_lt] at hnone
      exact mul_nonneg hnone ((hb term.1).1 hk)
  · rw [hother _ hw]

/-! ### Trials -/

/-- The artificial variable is not one of the tableau's. -/
theorem kind_artificial (t : Tableau Rat Rat) : t.kind t.artificial = .external := by
  rw [kind, artificial, t.get?_addVariable_fst .slack none]
  rfl

/-- The other variables stand where they stood before the measurement. -/
theorem Placeable.rowValue_measured (h : t.Placeable d) (hv : v ≠ t.artificial) :
    (t.measured d).rowValue v = t.rowValue v := by
  obtain ⟨hlinked, -, -⟩ := h.measured
  by_cases hb : t.IsBasic v
  · obtain ⟨r, hr, rfl⟩ := hb
    have hmem : r ∈ (t.measured d).rows := by
      rw [rows_measured]
      exact List.mem_append_left _ hr
    rw [h.linked.rowValue_basic hr, hlinked.rowValue_basic hmem]
  · rw [h.linked.rowValue_of_not_isBasic hb, hlinked.rowValue_of_not_isBasic]
    rintro ⟨r, hr, rfl⟩
    rw [rows_measured, List.mem_append, List.mem_singleton] at hr
    rcases hr with hr | rfl
    · exact hb ⟨r, hr, rfl⟩
    · exact hv rfl

/-- Respecting the kinds with an artificial variable is respecting them without it, where that is
not negative. -/
theorem Admissible.respects_measured_iff (h : t.Admissible d) :
    (t.measured d).Respects a ↔ t.Respects a ∧ 0 ≤ a t.artificial := by
  have hslack := h.measurable.measures.kind_eq
  have hother : ∀ w, w ≠ t.artificial → (t.measured d).kind w = t.kind w :=
    fun w hw => h.placeable.kind_measured hw
  constructor
  · refine fun hrespects => ⟨fun w => ?_, (hrespects _).1 (by rw [hslack]; rfl)⟩
    by_cases hw : w = t.artificial
    · rw [hw]
      exact Kind.admits_of_external t.kind_artificial _
    · rw [← hother w hw]
      exact hrespects w
  · rintro ⟨hrespects, hnonneg⟩ w
    by_cases hw : w = t.artificial
    · rw [hw, hslack]
      exact Kind.admits_of_nonneg rfl hnonneg
    · rw [hother w hw]
      exact hrespects w

/-- The objective of a measurement is at the value of the draft. -/
theorem Measures.constant_objective (h : Measures t d art m) :
    (m.objective .phaseOne).constant.get =
      fun s => if s = .fixed then d.expr.eval m.rowValue else 0 := by
  funext s
  have hsat := h.linked.satisfies_rowValue
  rw [← h.linked.evalAt_rowValue, h.objective s _ hsat, ((h.satisfies_iff _).mp hsat).2]

/-- What a **trial** in exact arithmetic comes to: it measures the draft still, and descends. -/
structure Trying (t : Tableau Rat Rat) (d : Draft Rat) : Prop where
  start : (t.measured d).Descending .phaseOne
  measures : Measures t d t.artificial (t.trial d).2
  descended : Descended .phaseOne (t.measured d) (t.trial d).2
  satisfies : t.Satisfies (t.trial d).2.rowValue
  respects : t.Respects (t.trial d).2.rowValue
  nonneg : 0 ≤ d.expr.eval (t.trial d).2.rowValue

/-- What phase one starts from in a basic-feasible tableau. -/
theorem BasicFeasible.trying (h : t.BasicFeasible) (hd : t.Admissible d)
    (hconst : 0 ≤ d.expr.constant) (htried : t.Tried d) : t.Trying d := by
  have hstart := hd.measurable.measures.descending (h.measured hd.placeable hconst htried.1)
  have hmeasures : Measures t d t.artificial (t.trial d).2 :=
    hd.measurable.measures.minimise .phaseOne
  have hdescended : Descended .phaseOne (t.measured d) (t.trial d).2 := hstart.minimise
  obtain ⟨hsat, hvalue⟩ := (hmeasures.satisfies_iff _).mp hmeasures.linked.satisfies_rowValue
  obtain ⟨hrespects, hnonneg⟩ := hd.respects_measured_iff.mp
    ((respects_congr hdescended.kind_eq).mp
      (hdescended.descending.feasible.respects_rowValue hmeasures.linked))
  exact ⟨hstart, hmeasures, hdescended, hsat, hrespects, hvalue ▸ hnonneg⟩

/-- A trial that does not fail ends where its draft is **least**. A solution is one of the
measurement too, with what the draft comes to there as the artificial variable. -/
theorem BasicFeasible.leastAt_trial (h : t.BasicFeasible) (hd : t.Admissible d)
    (hconst : 0 ≤ d.expr.constant) (htried : t.Tried d) (hok : (t.trial d).1 = .ok ())
    (hnot : ¬t.Solvable d) : t.LeastAt d (t.trial d).2.rowValue := by
  have htrying := h.trying hd hconst htried
  intro a ha hrespects
  have hpos := eval_pos_of_not_solvable hnot htrying.satisfies htrying.respects htrying.nonneg ha
    hrespects
  set a' := update a t.artificial (d.expr.eval a) with ha'
  have hself : a' t.artificial = d.expr.eval a := update_self ..
  have hexpr : d.expr.eval a' = d.expr.eval a :=
    LinExpr.eval_update_of_notMem hd.measurable.notMem_art a _
  have hsat : (t.measured d).Satisfies a' :=
    satisfies_measured.mpr
      ⟨(hd.measurable.free_art.satisfies_update _).mpr ha, hself.trans hexpr.symm⟩
  have hrespects' : (t.measured d).Respects a' := by
    refine hd.respects_measured_iff.mpr ⟨fun w => ?_, hself ▸ le_of_lt hpos⟩
    by_cases hw : w = t.artificial
    · rw [hw]
      exact Kind.admits_of_external t.kind_artificial _
    · rw [ha', update_of_ne hw]
      exact hrespects w
  rcases htrying.start.minimise_cases with ⟨-, hleast⟩ | ⟨limit, hlimit⟩
  · have hle := hleast a' hsat hrespects'
    have hvalue : (fun s => ((t.measured d).objective .phaseOne).evalAt s a') =
        fun s => if s = .fixed then d.expr.eval a else 0 := funext fun s => by
      rw [hd.measurable.measures.objective s a' hsat, hself]
    have hconstant : (((t.measured d).minimise .phaseOne).2.objective .phaseOne).constant.get =
        fun s => if s = .fixed then d.expr.eval (t.trial d).2.rowValue else 0 :=
      htrying.measures.constant_objective
    rw [hvalue, hconstant, byTier_single_le_iff] at hle
    rwa [abs_of_nonneg htrying.nonneg, abs_of_pos hpos]
  · rw [trial, hlimit] at hok
    exact absurd hok (by simp)

/-- The trial of a draft that is as near to zero as it can be moves nothing. -/
theorem BasicFeasible.rowValue_trial (h : t.BasicFeasible) (hd : t.Admissible d)
    (hconst : 0 ≤ d.expr.constant) (htried : t.Tried d) (hleast : t.LeastAt d t.rowValue) :
    (t.trial d).2.rowValue = (t.measured d).rowValue := by
  have htrying := h.trying hd hconst htried
  have hmeasured := hd.measurable.measures
  refine htrying.start.rowValue_minimise ?_
  have hconstant : (((t.measured d).minimise .phaseOne).2.objective .phaseOne).constant.get =
      fun s => if s = .fixed then d.expr.eval (t.trial d).2.rowValue else 0 :=
    htrying.measures.constant_objective
  rw [hmeasured.constant_objective, hconstant, byTier_single_le_iff]
  have hbefore : d.expr.eval (t.measured d).rowValue = d.expr.constant := by
    refine hmeasured.linked.eval_rowValue fun w hw => ?_
    have hrow : (⟨d.row, t.artificial, d.expr⟩ : Row Rat) ∈ (t.measured d).rows := by
      rw [rows_measured]
      exact List.mem_append_right _ (List.mem_singleton_self _)
    exact ((hmeasured.linked.row _ hrow).term w hw).2
  have hle := hleast _ htrying.satisfies htrying.respects
  rw [hd.placeable.linked.eval_rowValue fun w hw => (hd.placeable.term w hw).2,
    abs_of_nonneg hconst, abs_of_nonneg htrying.nonneg] at hle
  rwa [hbefore]

/-- Such a trial leaves the goal where it was too. Exchanges rewrite the goal, so it has the same
value in all solutions. -/
theorem BasicFeasible.constant_goal_trial (h : t.BasicFeasible) (hd : t.Admissible d)
    (hconst : 0 ≤ d.expr.constant) (htried : t.Tried d) (hleast : t.LeastAt d t.rowValue) :
    (t.trial d).2.goal.constant = t.goal.constant := by
  have htrying := h.trying hd hconst htried
  have hmeasured := hd.measurable.measures
  have hgoal : (t.measured d).goal = t.goal :=
    (goal_attach _ _).trans (goal_addVariable t .slack none)
  have hstay := h.rowValue_trial hd hconst htried hleast
  have hcharges : (t.trial d).2.Charges fun s a => (t.measured d).goal.evalAt s a :=
    Charges.minimise (t := t.measured d) (fun _ _ _ => rfl) hmeasured.linked hmeasured.normal
      .phaseOne
  refine TierVector.ext_get fun s => ?_
  calc (t.trial d).2.goal.constant.get s
      = (t.trial d).2.goal.evalAt s (t.trial d).2.rowValue :=
        (htrying.measures.linked.evalAt_rowValue .goal s).symm
    _ = (t.measured d).goal.evalAt s (t.trial d).2.rowValue :=
        hcharges s _ htrying.measures.linked.satisfies_rowValue
    _ = (t.measured d).goal.evalAt s (t.measured d).rowValue := by rw [hstay]
    _ = (t.measured d).goal.constant.get s := hmeasured.linked.evalAt_rowValue .goal s
    _ = t.goal.constant.get s := by rw [hgoal]

/-- A draft that is refused after a trial is least where the trial brought the variables, with zero
for its own. -/
theorem BasicFeasible.leastAt_of_tried (h : t.BasicFeasible) (hd : t.Admissible d)
    (hconst : 0 ≤ d.expr.constant) (htried : t.Tried d) (hplace : (t.place d).1 = .ok false)
    (hb : t.Satisfies b) (hown : ∀ w ∈ d.constraint.tag.vars, b w = 0)
    (hother : ∀ w, w ∉ d.constraint.tag.vars → b w = (t.trial d).2.rowValue w) :
    t.LeastAt d b := by
  have htrying := h.trying hd hconst htried
  have hnot : ¬t.Solvable d := by
    rcases h.place_refuses hd hconst with hok | ⟨-, hnot⟩ | ⟨limit, hlimit⟩
    · rw [hplace] at hok
      exact absurd hok (by simp)
    · exact hnot
    · rw [hplace] at hlimit
      exact absurd hlimit (by simp)
  have hrespects : t.Respects b := fun w => by
    by_cases hw : w ∈ d.constraint.tag.vars
    · rw [hown w hw]
      exact Kind.admits_zero _
    · rw [hother w hw]
      exact htrying.respects w
  have hpos := eval_pos_of_not_solvable hnot htrying.satisfies htrying.respects htrying.nonneg hb
    hrespects
  exact (h.leastAt_trial hd hconst htried (trial_of_place_false htried hplace).1 hnot).of_le
    (le_of_lt hpos) (htried.eval_le hd.placeable.nodup htrying.respects hown hother)

/-- A draft that is refused without a trial is least anywhere. -/
theorem leastAt_of_not_tried (hnot : ¬t.Tried d) (hplace : (t.place d).1 = .ok false)
    (hb : t.Respects b) : t.LeastAt d b := by
  refine leastAt_of_constant (fun w hw => ?_) hb
  by_contra hkind
  exact hnot ⟨subject?_of_place_false hplace, w, hw, hkind⟩

/-! ### Requests -/

/-- Variables stand **nearest** to a request if no solution that respects the kinds comes nearer to
its equation, whatever values are chosen for the variables that are made for it. -/
def Nearest (t : Tableau Rat Rat) (request : Request Rat) (relation : Relation) (b : Assignment) :
    Prop :=
  ∀ a, t.Satisfies a → t.Respects a → ∀ xs : List Rat,
    List.Forall₂ (fun p x => p.kind.Admits x) (parts request relation) xs →
      |request.expr.eval (t.fold b)| ≤ |request.expr.eval (t.fold a) +
        (List.zipWith (fun p x => p.coefficient * x) (parts request relation) xs).sum|

/-- Nearness depends on the variables of the request. -/
theorem Nearest.congr (h : t.Nearest request relation b)
    (hbc : ∀ v ∈ request.expr.vars, c v = b v) : t.Nearest request relation c := by
  have hexpr : request.expr.eval (t.fold c) = request.expr.eval (t.fold b) :=
    LinExpr.eval_congr fun w hw => by rw [fold, fold, hbc w hw]
  intro a ha hrespects xs hadmits
  rw [hexpr]
  exact h a ha hrespects xs hadmits

/-- Parts whose variables are zero add nothing. -/
theorem sum_zipWith_eq_zero {ps : List (Part Rat)} {xs : List Rat} (h : ∀ x ∈ xs, x = 0) :
    (List.zipWith (fun p x => p.coefficient * x) ps xs).sum = 0 := by
  induction ps generalizing xs with
  | nil => rfl
  | cons p ps ih =>
      cases xs with
      | nil => rfl
      | cons x xs =>
          rw [List.zipWith_cons_cons, List.sum_cons, h x List.mem_cons_self, mul_zero, zero_add]
          exact ih fun y hy => h y (List.mem_cons_of_mem _ hy)

/-- A draft is least where its own variables are zero, exactly if the others stand nearest to the
request. -/
theorem Linked.nearest_iff (h : t.Linked none) (hlive : ∀ v ∈ request.expr.vars, t.vars.isLive v)
    (relation : Relation) (hb : t.Satisfies b)
    (hown : ∀ v ∈ (t.draft request relation).1.constraint.tag.vars, b v = 0) :
    t.Nearest request relation b ↔
      (t.draft request relation).2.LeastAt (t.draft request relation).1 b := by
  have hrows := (h.draft request relation).joined.rows
  have hvalue : |(t.draft request relation).1.expr.eval b| = |request.expr.eval (t.fold b)| := by
    have hzero : (List.zipWith (fun p x => p.coefficient * x) (parts request relation)
        ((t.draft request relation).1.constraint.tag.vars.map b)).sum = 0 := by
      refine sum_zipWith_eq_zero fun x hx => ?_
      obtain ⟨v, hv, rfl⟩ := List.mem_map.mp hx
      exact hown v hv
    rw [h.abs_eval_draft hlive relation hb, h.eval_equation_draft hlive, hzero, add_zero]
  constructor
  · intro hnear a ha hrespects
    obtain ⟨a', hsat, hrespects', xs, hadmits, heq⟩ :=
      (h.exists_draft_iff hlive relation _).mp ⟨a, ha, hrespects, rfl⟩
    rw [hvalue, h.abs_eval_draft hlive relation ((satisfies_congr hrows).mp ha), ← heq]
    exact hnear a' hsat hrespects' xs hadmits
  · intro hleast a ha hrespects xs hadmits
    obtain ⟨a', hsat, hrespects', heq⟩ :=
      (h.exists_draft_iff hlive relation _).mpr ⟨a, ha, hrespects, xs, hadmits, rfl⟩
    rw [← hvalue, ← heq, ← h.abs_eval_draft hlive relation ((satisfies_congr hrows).mp hsat)]
    exact hleast a' hsat hrespects'

/-! ### Refusals -/

/-- Whether a variable is folded, and its value then, depends on its core. -/
theorem SameVars.fold_eq (h : t.SameVars t') (a : Assignment) : t'.fold a = t.fold a := by
  funext v
  rw [fold, fold]
  cases hx : t.vars.get? v with
  | none =>
      have hnone := h.core_eq v
      rw [hx, Option.map_none, Option.map_eq_none_iff] at hnone
      rw [hnone]
      rfl
  | some x =>
      obtain ⟨x', hx', hcore⟩ := h.get?_eq_some hx
      have hfolded : x'.core.isFolded = x.core.isFolded := congrArg Variable.isFolded hcore
      have hcomputed : x'.core.computed = x.core.computed := congrArg Variable.computed hcore
      change x'.isFolded = x.isFolded at hfolded
      change x'.computed = x.computed at hcomputed
      rw [hx', Option.any_some, Option.any_some, hfolded]
      by_cases hf : x.isFolded
      · rw [if_pos hf, if_pos hf, value_of_isFolded hx hf, value_of_isFolded hx' (hfolded.trans hf),
          hcomputed]
      · rw [if_neg hf, if_neg hf]

/-- With the same variables and solutions, the same requests are compatible. -/
theorem SameVars.compatible_iff (h : t.SameVars t')
    (hsat : ∀ a, t'.Satisfies a ↔ t.Satisfies a) :
    t'.Compatible request relation ↔ t.Compatible request relation := by
  simp only [Compatible, hsat, respects_congr h.kind_eq, h.fold_eq]

/-- With the same variables and solutions, the same assignments are nearest. -/
theorem SameVars.nearest_iff (h : t.SameVars t') (hsat : ∀ a, t'.Satisfies a ↔ t.Satisfies a) :
    t'.Nearest request relation b ↔ t.Nearest request relation b := by
  simp only [Nearest, hsat, respects_congr h.kind_eq, h.fold_eq]

/-- A refused request leaves the variables. -/
theorem WellFormed.sameVars_of_refused (h : t.WellFormed) {text : String}
    (hrefused : (t.insert request relation).1 = .error (.infeasible text)) :
    t.SameVars (t.insert request relation).2 := by
  refine ⟨fun v => ?_, (h.insert request relation).2.highWater_le⟩
  rw [h.linked.core_failed (h.linked.failed hrefused),
    if_neg fun hw => absurd hw.2 (by simp [Fault.isInternal])]

/-- A refused request leaves the variables **nearest** to it. -/
theorem BasicFeasible.nearest_of_refused (h : t.BasicFeasible) (hwell : t.WellFormed)
    (hn : t.Normal) {text : String}
    (hrefused : (t.insert request relation).1 = .error (.infeasible text)) :
    (t.insert request relation).2.Nearest request relation
      (t.insert request relation).2.rowValue := by
  have hl := hwell.linked
  obtain ⟨hlive, hplace⟩ := place_of_refused hrefused
  have hjoined := (hl.draft request relation).joined
  have hnotOwn : ∀ {v}, t.vars.isLive v → v ∉ (t.draft request relation).1.constraint.tag.vars :=
    hjoined.notMem_of_isLive
  rw [(hwell.sameVars_of_refused hrefused).nearest_iff
    ((hl.satisfies_insert hn request relation).2.2 _ hrefused)]
  by_cases htried : (t.draft request relation).2.Tried (t.draft request relation).1
  · obtain ⟨hrow, -, -⟩ := hl.failed_of_tried (hl.failed hrefused) (.inl rfl) htried
    have hd := hl.admissible hn hlive relation
    have hconst := (hl.stated hlive relation).constant_nonneg
    set b : Assignment := fun w =>
      if w ∈ (t.draft request relation).1.constraint.tag.vars then 0
      else (t.tried request relation).rowValue w
    have hsat : t.Satisfies b := by
      refine hl.satisfies_of_eq (fun w hw => if_neg (hnotOwn hw)) ?_
      exact (satisfies_congr hjoined.rows).mp
        ((h.draft hl request relation).trying hd hconst htried).satisfies
    have hleast := (h.draft hl request relation).leastAt_of_tried hd hconst htried hplace
      ((satisfies_congr hjoined.rows).mpr hsat) (fun w hw => if_pos hw) fun w hw => if_neg hw
    refine ((hl.nearest_iff hlive relation hsat fun w hw => if_pos hw).mpr hleast).congr
      fun w hw => ?_
    exact (hrow w (hlive w hw)).trans (if_neg (hnotOwn (hlive w hw))).symm
  · obtain ⟨hrow, -, -⟩ := hl.refused_of_not_tried (hl.failed hrefused) rfl htried
    have hown : ∀ v ∈ (t.draft request relation).1.constraint.tag.vars, t.rowValue v = 0 :=
      fun v hv => hl.rowValue_of_not_isBasic fun hb => hnotOwn (hl.isLive_of_isBasic hb) hv
    have hrespects : (t.draft request relation).2.Respects t.rowValue :=
      hjoined.respects_iff.mpr ⟨h.respects_rowValue hl, fun v hv => by
        rw [hown v hv]
        exact Kind.admits_zero _⟩
    exact ((hl.nearest_iff hlive relation hl.satisfies_rowValue hown).mpr
      (leastAt_of_not_tried htried hplace hrespects)).congr fun w hw => hrow w (hlive w hw)

/-- Where the variables stand nearest to a request, its trial leaves them there, and the goal. -/
theorem BasicFeasible.tried_of_nearest (h : t.BasicFeasible) (hl : t.Linked none) (hn : t.Normal)
    (hlive : ∀ v ∈ request.expr.vars, t.vars.isLive v)
    (htried : (t.draft request relation).2.Tried (t.draft request relation).1)
    (hnear : t.Nearest request relation t.rowValue) :
    (∀ v, t.vars.isLive v → (t.tried request relation).rowValue v = t.rowValue v) ∧
      (t.tried request relation).goal.constant = t.goal.constant := by
  have hdrafted := hl.draft request relation
  have hfeasible := h.draft hl request relation
  have hd := hl.admissible hn hlive relation
  have hconst := (hl.stated hlive relation).constant_nonneg
  have hdraft : (t.draft request relation).2.rowValue = t.rowValue :=
    funext (hl.rowValue_congr hdrafted.linked hdrafted.joined.rows)
  have hown : ∀ v ∈ (t.draft request relation).1.constraint.tag.vars, t.rowValue v = 0 :=
    fun v hv => hl.rowValue_of_not_isBasic fun hb =>
      hdrafted.joined.notMem_of_isLive (hl.isLive_of_isBasic hb) hv
  have hleast := (hl.nearest_iff hlive relation hl.satisfies_rowValue hown).mp hnear
  rw [← hdraft] at hleast
  refine ⟨fun v hv => ?_, ?_⟩
  · have hne : v ≠ (t.draft request relation).2.artificial := by
      rintro rfl
      exact Option.isSome_iff_ne_none.mp hv (hl.artificial_fresh request relation).2
    rw [tried, hfeasible.rowValue_trial hd hconst htried hleast,
      hd.placeable.rowValue_measured hne, hdraft]
  · exact (hfeasible.constant_goal_trial hd hconst htried hleast).trans
      (t.constant_goal_draft request relation)

end Tableau

/-! ### Refusals made again -/

namespace Solver

variable {s : Solver Rat Rat} {request : Request Rat} {relation : Relation}

/-- Where the variables stand nearest to a request, its trial is traceless. -/
theorem Reachable.traceless_of_nearest (h : s.Reachable) (hfeasible : s.tableau.BasicFeasible)
    (hlive : ∀ v ∈ request.expr.vars, s.tableau.vars.isLive v)
    (hnear : s.tableau.Nearest request relation s.tableau.rowValue)
    (htries : s.Tries request relation) : s.Traceless request relation := by
  obtain ⟨hwell, hnormal, -⟩ := h.regular
  obtain ⟨hrow, hgoal⟩ :=
    hfeasible.tried_of_nearest hwell.linked hnormal hlive htries hnear
  exact ⟨fun v hv => congrArg Precision.narrow (Tableau.value_congr
    (hwell.linked.core_tried_of_isLive hv) fun _ => hrow v hv), hgoal⟩

/-- What a refused request **leaves**: the variables stand nearest to it, and it is refused again
unless the limit on exchanges is reached. -/
theorem Reachable.nearest_of_refused (h : s.Reachable) (hfeasible : s.tableau.BasicFeasible)
    {text : String} (hrefused : (s.add request relation).1 = .error (.infeasible text)) :
    (s.add request relation).2.tableau.BasicFeasible ∧
      (s.add request relation).2.tableau.Nearest request relation
        (s.add request relation).2.tableau.rowValue ∧
      ((∃ text, ((s.add request relation).2.add request relation).1 = .error (.infeasible text)) ∨
        ∃ limit, ((s.add request relation).2.add request relation).1 =
          .error (.iterationLimit limit)) := by
  obtain ⟨hwell, hnormal, -⟩ := h.regular
  obtain ⟨hwell', hnormal', -⟩ := (h.perform (.add request relation)).regular
  obtain ⟨htableau, -, -, hresult⟩ := tableau_add s request relation
  obtain ⟨-, -, -, hresult'⟩ := tableau_add (s.add request relation).2 request relation
  change (s.add request relation).2.tableau.WellFormed at hwell'
  change (s.add request relation).2.tableau.Normal at hnormal'
  rw [hresult] at hrefused
  rw [hresult']
  rw [htableau] at hwell' hnormal' ⊢
  have hlive := (Tableau.place_of_refused hrefused).1
  have hsame := hwell.sameVars_of_refused hrefused
  have hfeasible' := hfeasible.insert hwell.linked hnormal request relation
  refine ⟨hfeasible', hfeasible.nearest_of_refused hwell hnormal hrefused, ?_⟩
  have hnot : ¬s.tableau.Compatible request relation := by
    rcases hfeasible.insert_decides hwell.linked hnormal hlive relation with
      ⟨⟨id, hid⟩, -⟩ | ⟨-, hnot⟩ | ⟨limit, hlimit⟩
    · rw [hrefused] at hid
      exact absurd hid (by simp)
    · exact hnot
    · rw [hrefused] at hlimit
      exact absurd hlimit (by simp)
  rw [← hsame.compatible_iff
    ((hwell.linked.satisfies_insert hnormal request relation).2.2 _ hrefused)] at hnot
  have hlive' : ∀ v ∈ request.expr.vars,
      (s.tableau.insert request relation).2.vars.isLive v := fun v hv =>
    (hsame.isLive_iff v).mpr (hlive v hv)
  rcases hfeasible'.insert_decides hwell'.linked hnormal' hlive' relation with
    ⟨-, hcompatible⟩ | ⟨hagain, -⟩ | hlimit
  · exact absurd hcompatible hnot
  · exact .inl hagain
  · exact .inr hlimit

end Solver

namespace Session

variable {s : Session Rat Rat} {request : Request Rat} {relation : Relation}

/-- **A refusal shows at most once.** Where a caller who names only own variables makes a request
again that was refused, it is refused again and nothing changes, unless the limit on exchanges is
reached. That the second trial leaves no row behind is known as long as handles have not come
round. -/
theorem Run.refused_again (h : s.Run Session.Authored) (hroom : s.solver.tableau.Unwrapped)
    (hfeasible : s.solver.tableau.BasicFeasible) (hc : s.Authored (.add request relation))
    {text : String} (hrefused : (s.solver.add request relation).1 = .error (.infeasible text)) :
    ((∃ text, ((s.solver.add request relation).2.add request relation).1 =
        .error (.infeasible text)) ∧
      (s.solver.add request relation).2.Unchanged
        ((s.solver.add request relation).2.add request relation).2) ∨
      ∃ limit, ((s.solver.add request relation).2.add request relation).1 =
        .error (.iterationLimit limit) := by
  obtain ⟨hfeasible', hnear, ⟨text', hagain⟩ | hlimit⟩ :=
    h.reachable.nearest_of_refused hfeasible hrefused
  · refine .inl ⟨⟨text', hagain⟩, ?_⟩
    obtain ⟨-, -, -, hresult⟩ := (s.solver.add request relation).2.tableau_add request relation
    have hlive := (Tableau.place_of_refused (hresult.symm.trans hagain)).1
    have hcreated : (s.perform (.add request relation)).created = s.created := by
      have hreply : (s.solver.perform (.add request relation)).1 = .error (.infeasible text) :=
        congrArg (Except.map Reply.constraint) hrefused
      rw [perform, hreply]
      rfl
    have hc' : (s.perform (.add request relation)).Authored (.add request relation) := by
      intro v hv hleft
      rw [hcreated]
      exact hc v hv ((Solver.isLive_add_of_refused h.reachable hrefused v).mp hleft)
    have hroom' : (s.solver.add request relation).2.tableau.Unwrapped := by
      obtain ⟨htableau, -, -, hresult⟩ := Solver.tableau_add s.solver request relation
      have hnext := (h.reachable.wellFormed.linked.entered_insert request relation).2 _
        (hresult.symm.trans hrefused)
      rw [Tableau.Unwrapped, htableau, hnext]
      exact hroom
    refine ((h.step hc).unchanged_iff_traceless hroom' hc' hagain).mpr fun htries => ?_
    exact (h.step hc).reachable.traceless_of_nearest hfeasible' hlive hnear htries
  · exact .inr hlimit

end Session

end LexSimplex
