import Mathlib.Tactic.Linarith
import LexSimplex.Proofs.Placement
import LexSimplex.Proofs.Removal
import LexSimplex.Proofs.Values

/-!
# The solutions of a tableau

The **solutions** of a tableau are the assignments that satisfy its rows. This module says what
each row operation does to them: an exchange keeps them, a draft that is solved for one of its
variables adds its equation to them, and a row that goes leaves the variable which it defined
free.

The variables that are not basic may have any values, and these determine a solution. So a
variable on which the solutions do not depend is in no row.

## Main definitions

* `Tableau.Normal`: the rows are normal.
* `Tableau.extend`: the solution with given values of the variables that are not basic.
* `Tableau.FreeOf`: the solutions do not depend on a variable.

## Main results

* `Tableau.Linked.satisfies_redefine`, `Tableau.Placeable.satisfies_solved`,
  `Tableau.Linked.satisfies_eliminated`: the solutions after row operations.
* `Tableau.Linked.satisfies_extend`: every choice of values extends to a solution.
* `Tableau.FreeOf.absent`: the solutions depend on all variables in the rows.
-/

namespace LexSimplex

open Function (update update_self update_of_ne update_eq_self)

namespace Tableau

variable {t t' : Tableau Rat Rat} {r : Row Rat} {v : VarId} {a : Assignment}

/-- The rows of a tableau are **normal**. -/
def Normal (t : Tableau Rat Rat) : Prop :=
  ∀ r ∈ t.rows, r.expr.Normal

/-- The solutions depend on the rows. -/
theorem satisfies_congr (hrows : t'.rows = t.rows) : t'.Satisfies a ↔ t.Satisfies a := by
  rw [Satisfies, Satisfies, hrows]

/-- Whether a tableau is normal depends on the rows. -/
theorem Normal.of_rows (h : t.Normal) (hrows : t'.rows = t.rows) : t'.Normal := by
  rw [Normal, hrows]
  exact h

/-! ### Row operations -/

/-- Attaching a row leaves the solutions in which it holds. -/
theorem satisfies_attach : (t.attach r).Satisfies a ↔ t.Satisfies a ∧ r.Holds a := by
  simp only [Satisfies, rows_attach, List.mem_append, List.mem_singleton, or_imp, forall_and,
    forall_eq]

/-- Attaching a normal row keeps a tableau normal. -/
theorem Normal.attach (h : t.Normal) (hr : r.expr.Normal) : (t.attach r).Normal := by
  intro s hs
  rw [rows_attach, List.mem_append, List.mem_singleton] at hs
  rcases hs with hs | rfl
  · exact h s hs
  · exact hr

/-- A row that is taken out is one equation less. -/
theorem Linked.satisfies_detach {out : Option RowId} (h : t.Linked out) (hr : r ∈ t.rows) :
    t.Satisfies a ↔ (t.detach r).Satisfies a ∧ r.Holds a := by
  simp only [Satisfies, h.mem_rows_detach hr]
  constructor
  · exact fun hall => ⟨fun s hs => hall s hs.1, hall r hr⟩
  · rintro ⟨hothers, hholds⟩ s hs
    rcases eq_or_ne s r with rfl | hne
    · exact hholds
    · exact hothers s ⟨hs, hne⟩

/-- Detaching a row keeps a tableau normal. -/
theorem Linked.normal_detach {out : Option RowId} (h : t.Linked out) (hn : t.Normal)
    (hr : r ∈ t.rows) : (t.detach r).Normal :=
  fun s hs => hn s ((h.mem_rows_detach hr s).mp hs).1

/-- A row holds after a substitution if it does where the variable has the value of the
expression. -/
theorem Row.holds_substitute (hr : r.expr.vars.Nodup) (hv : r.basic ≠ v) (d : LinExpr Rat) :
    (r.substitute v d).Holds a ↔ r.Holds (update a v (d.eval a)) := by
  rw [Row.Holds, Row.Holds, Row.substitute, LinExpr.eval_substitute hr, update_of_ne hv]

/-- The solutions after a substitution. -/
theorem Linked.satisfies_substitute {out : Option RowId} (h : t.Linked out)
    (hv : ¬t.IsBasic v) (d : LinExpr Rat) :
    (t.substitute v d).Satisfies a ↔ t.Satisfies (update a v (d.eval a)) := by
  rw [Satisfies, Satisfies, h.rows_substitute]
  simp only [List.mem_map, forall_exists_index, and_imp, forall_apply_eq_imp_iff₂]
  refine forall_congr' fun s => forall_congr' fun hs => ?_
  exact Row.holds_substitute (h.row s hs).nodup (fun hb => hv ⟨s, hs, hb⟩) d

/-- Replacing a variable keeps a tableau normal. -/
theorem Linked.normal_substitute {out : Option RowId} (h : t.Linked out) (hn : t.Normal)
    (v : VarId) (d : LinExpr Rat) : (t.substitute v d).Normal := by
  intro s hs
  rw [h.rows_substitute] at hs
  obtain ⟨q, hq, rfl⟩ := List.mem_map.mp hs
  exact (hn q hq).substitute v d

/-- A row says the same of the variable that it defined and of the one that it is made to
define. -/
theorem Linked.holds_redefined (h : t.Linked none) (hn : t.Normal) (hr : r ∈ t.rows)
    (hv : v ∈ r.expr.vars) : (redefined r v).Holds a ↔ r.Holds a := by
  have hrow := h.row r hr
  have hb : r.basic ∉ r.expr.vars := fun hmem => (hrow.term _ hmem).2 ⟨r, hr, rfl⟩
  exact LinExpr.eval_exchange_iff hrow.nodup hb (ne_of_mem_of_not_mem hv hb)
    ((hn r hr).mem_vars_iff.mp hv) a

/-- An **exchange** keeps the solutions. -/
theorem Linked.satisfies_redefine (h : t.Linked none) (hn : t.Normal) (hr : r ∈ t.rows)
    (hv : v ∈ r.expr.vars) : (t.redefine r v).Satisfies a ↔ t.Satisfies a := by
  have hbasic : ¬(t.detach r).IsBasic v := fun hb =>
    ((h.row r hr).term v hv).2 ((h.isBasic_detach hr v).mp hb).1
  rw [redefine_eq, satisfies_attach, (h.detach hr).satisfies_substitute hbasic,
    h.satisfies_detach hr, ← h.holds_redefined hn hr hv]
  refine and_congr_left fun hholds => ?_
  have hvalue : (redefined r v).expr.eval a = a v := hholds.symm
  rw [hvalue, update_eq_self]

/-- An exchange keeps a tableau normal. -/
theorem Linked.normal_redefine (h : t.Linked none) (hn : t.Normal) (hr : r ∈ t.rows) :
    (t.redefine r v).Normal := by
  rw [redefine_eq]
  exact Normal.attach ((h.detach hr).normal_substitute (h.normal_detach hn hr) v _)
    ((hn r hr).exchange r.basic v)

/-- The solutions are those without a row in which it holds. -/
theorem Linked.satisfies_dropRow (h : t.Linked none) (hr : r ∈ t.rows) :
    t.Satisfies a ↔ (t.dropRow r).Satisfies a ∧ r.Holds a :=
  h.satisfies_detach hr

/-- A row that goes leaves the variable which it defined free. -/
theorem Linked.satisfies_dropRow_iff (h : t.Linked none) (hr : r ∈ t.rows) :
    (t.dropRow r).Satisfies a ↔ ∃ x, t.Satisfies (update a r.basic x) := by
  have hothers : ∀ x, (t.dropRow r).Satisfies (update a r.basic x) ↔
      (t.dropRow r).Satisfies a := by
    intro x
    refine forall_congr' fun s => forall_congr' fun hs => ?_
    obtain ⟨hst, hsr⟩ := (h.mem_rows_dropRow hr s).mp hs
    have hnot : r.basic ∉ s.expr.vars := fun hmem => ((h.row s hst).term _ hmem).2 ⟨r, hr, rfl⟩
    have hbasic : s.basic ≠ r.basic := fun hb => hsr (h.eq_of_basic_eq hst hr hb)
    rw [Row.Holds, Row.Holds, update_of_ne hbasic, LinExpr.eval_update_of_notMem hnot]
  have hown : r.basic ∉ r.expr.vars := fun hmem => ((h.row r hr).term _ hmem).2 ⟨r, hr, rfl⟩
  have hholds : ∀ x, r.Holds (update a r.basic x) ↔ x = r.expr.eval a := by
    intro x
    rw [Row.Holds, update_self, LinExpr.eval_update_of_notMem hown]
  simp only [h.satisfies_dropRow hr, hothers, hholds]
  exact ⟨fun hall => ⟨_, hall, rfl⟩, fun ⟨_, hall, _⟩ => hall⟩

/-- A draft that is solved for one of its variables adds its equation. -/
theorem Placeable.satisfies_solved {d : Draft Rat} (h : t.Placeable d)
    (hv : ¬t.IsBasic v) (hcoef : d.expr.coefficient v ≠ 0) :
    (t.solved d v).Satisfies a ↔ t.Satisfies a ∧ d.expr.eval a = 0 := by
  have hiff := LinExpr.eval_solveFor_iff h.nodup hcoef a
  rw [solved, satisfies_attach, h.linked.satisfies_substitute hv]
  constructor
  · rintro ⟨hsat, hholds⟩
    have hvalue : (d.expr.solveFor v).eval a = a v := hholds.symm
    rw [hvalue, update_eq_self] at hsat
    exact ⟨hsat, hiff.mp hholds⟩
  · rintro ⟨hsat, hzero⟩
    have hvalue := hiff.mpr hzero
    refine ⟨?_, hvalue⟩
    rwa [← hvalue, update_eq_self]

/-- Taking out an equation through a row of its marker leaves the marker free. -/
theorem Linked.satisfies_eliminated (h : t.Linked none) (hr : r ∈ t.rows)
    (hcoef : r.expr.coefficient v ≠ 0) :
    (t.eliminated r v).Satisfies a ↔ ∃ x, t.Satisfies (update a v x) := by
  have hv : v ∈ r.expr.vars := by
    by_contra hnot
    exact hcoef (LinExpr.coefficient_of_notMem hnot)
  have hrow := h.row r hr
  have hown : r.basic ∉ r.expr.vars := fun hmem => (hrow.term _ hmem).2 ⟨r, hr, rfl⟩
  have hbasic : ¬(t.detach r).IsBasic v := fun hb =>
    (hrow.term v hv).2 ((h.isBasic_detach hr v).mp hb).1
  have hexpr : v ∉ (redefined r v).expr.vars := fun hmem => (h.term_redefined hr hmem).1 rfl
  have hholds : ∀ x, r.Holds (update a v x) ↔ x = (redefined r v).expr.eval a := by
    intro x
    have hiff := LinExpr.eval_exchange_iff hrow.nodup hown (ne_of_mem_of_not_mem hv hown) hcoef
      (update a v x)
    rw [update_self] at hiff
    exact hiff.symm.trans (by rw [← LinExpr.eval_update_of_notMem hexpr a x]; rfl)
  have hsub : (t.eliminated r v).Satisfies a ↔
      (t.detach r).Satisfies (update a v ((redefined r v).expr.eval a)) :=
    (h.detach hr).satisfies_substitute hbasic _
  rw [hsub]
  simp only [h.satisfies_detach hr, hholds]
  exact ⟨fun hall => ⟨_, hall, rfl⟩, fun ⟨_, hall, hx⟩ => hx ▸ hall⟩

/-- A variable that is forgotten stands at zero. -/
theorem Linked.satisfies_forget {out : Option RowId} (h : t.Linked out) (hv : ¬t.IsBasic v) :
    (t.forget v).Satisfies a ↔ t.Satisfies (update a v 0) := by
  rw [Satisfies, Satisfies, h.rows_forget]
  simp only [List.mem_map, forall_exists_index, and_imp, forall_apply_eq_imp_iff₂]
  refine forall_congr' fun s => forall_congr' fun hs => ?_
  have hb : s.basic ≠ v := fun hb => hv ⟨s, hs, hb⟩
  rw [Row.Holds, Row.Holds, update_of_ne hb, LinExpr.eval_update (h.row s hs).nodup, mul_zero,
    add_zero]

/-- Taking the terms of a variable out keeps a tableau normal. -/
theorem Linked.normal_forget {out : Option RowId} (h : t.Linked out) (hn : t.Normal)
    (v : VarId) : (t.forget v).Normal := by
  intro s hs
  rw [h.rows_forget] at hs
  obtain ⟨q, hq, rfl⟩ := List.mem_map.mp hs
  exact (hn q hq).without v

/-- A variable that is not basic stands at zero once it is discarded. -/
theorem Linked.satisfies_discard (h : t.Linked none) (hv : ¬t.IsBasic v) :
    (t.discard v).Satisfies a ↔ t.Satisfies (update a v 0) := by
  have hundefined : t.undefine v = t := by
    rw [Tableau.undefine, h.definition?_eq_none_iff.mpr hv]
  have hpurge : (t.discard v).Satisfies a ↔ (t.purge v).Satisfies a := satisfies_congr rfl
  rw [hpurge, purge_eq, hundefined, h.satisfies_forget hv]

/-- A solution of what is left when a variable was discarded is one of the tableau, with some value
of that variable. -/
theorem Linked.satisfies_of_discard (h : t.Linked none) (v : VarId)
    (ha : (t.discard v).Satisfies a) : ∃ x, t.Satisfies (update a v x) := by
  by_cases hv : t.IsBasic v
  · obtain ⟨r, hr, rfl⟩ := hv
    obtain ⟨hundefined, -, hbasic⟩ := h.undefine r.basic
    have hdrop : t.undefine r.basic = t.dropRow r := by
      rw [Tableau.undefine, h.definition?_eq_some_iff.mpr ⟨hr, rfl⟩]
    have hpurge : (t.purge r.basic).Satisfies a := ha
    rw [purge_eq, hundefined.satisfies_forget hbasic, hdrop, h.satisfies_dropRow_iff hr] at hpurge
    obtain ⟨x, hx⟩ := hpurge
    exact ⟨x, by rwa [Function.update_idem] at hx⟩
  · exact ⟨0, (h.satisfies_discard hv).mp ha⟩

/-- A solution of what is left when variables were discarded is one of the tableau, with some
values of these. -/
theorem Linked.satisfies_of_foldl_discard {vs : List VarId} (h : t.Linked none)
    (ha : (vs.foldl Tableau.discard t).Satisfies a) :
    ∃ b, (∀ w ∉ vs, b w = a w) ∧ t.Satisfies b := by
  induction vs generalizing t with
  | nil => exact ⟨a, fun _ _ => rfl, ha⟩
  | cons v vs ih =>
      obtain ⟨b, hsame, hb⟩ := ih (h.discard v) ha
      obtain ⟨x, hx⟩ := h.satisfies_of_discard v hb
      refine ⟨update b v x, fun w hw => ?_, hx⟩
      obtain ⟨hwv, hwvs⟩ := not_or.mp (mt List.mem_cons.mpr hw)
      rw [update_of_ne hwv, hsame w hwvs]

/-- Discarding a variable keeps a tableau normal. -/
theorem Linked.normal_discard (h : t.Linked none) (hn : t.Normal) (v : VarId) :
    (t.discard v).Normal := by
  have hundefined : (t.undefine v).Normal :=
    fun s hs => hn s ((h.mem_rows_undefine v s).mp hs).1
  exact ((h.undefine v).1.normal_forget hundefined v).of_rows rfl

/-- Discarding variables keeps a tableau normal. -/
theorem Linked.normal_foldl_discard (h : t.Linked none) (hn : t.Normal) (vs : List VarId) :
    (vs.foldl Tableau.discard t).Normal := by
  induction vs generalizing t with
  | nil => exact hn
  | cons v vs ih => exact ih (h.discard v) (h.normal_discard hn v)

/-! ### Solutions with given values -/

/-- The assignment with the values of `b` for the variables that are not basic. -/
def extend (t : Tableau Rat Rat) (b : Assignment) : Assignment :=
  fun v => match t.definition? v with
    | none => b v
    | some r => r.expr.eval b

/-- A variable that is not basic keeps its given value. -/
theorem Linked.extend_of_not_isBasic {out : Option RowId} (h : t.Linked out)
    (hv : ¬t.IsBasic v) (b : Assignment) : t.extend b v = b v := by
  rw [extend, h.definition?_eq_none_iff.mpr hv]

/-- Every choice of values for the variables that are not basic extends to a solution. -/
theorem Linked.satisfies_extend {out : Option RowId} (h : t.Linked out) (b : Assignment) :
    t.Satisfies (t.extend b) := by
  intro s hs
  have hvalue : t.extend b s.basic = s.expr.eval b := by
    rw [extend, h.definition?_eq_some_iff.mpr ⟨hs, rfl⟩]
  rw [Row.Holds, hvalue]
  exact LinExpr.eval_congr fun w hw =>
    (h.extend_of_not_isBasic ((h.row s hs).term w hw).2 b).symm

/-- The constants of the rows are a solution. -/
theorem Linked.satisfies_rowValue {out : Option RowId} (h : t.Linked out) :
    t.Satisfies t.rowValue := by
  have heq : t.rowValue = t.extend fun _ => 0 := by
    funext v
    rw [rowValue, extend]
    cases t.definition? v with
    | none => rfl
    | some r => exact (LinExpr.eval_zero r.expr).symm
  rw [heq]
  exact h.satisfies_extend _

/-! ### Variables that solutions do not depend on -/

/-- The solutions of a tableau are **free of** a variable if it may have any value in each. -/
def FreeOf (t : Tableau Rat Rat) (v : VarId) : Prop :=
  ∀ a x, t.Satisfies a → t.Satisfies (update a v x)

/-- A variable that solutions do not depend on may be moved in each. -/
theorem FreeOf.satisfies_update (h : t.FreeOf v) (x : Rat) :
    t.Satisfies (update a v x) ↔ t.Satisfies a := by
  refine ⟨fun hsat => ?_, h a x⟩
  have hback := h _ (a v) hsat
  rwa [Function.update_idem, update_eq_self] at hback

/-- A variable that is in no row may have any value in a solution. -/
theorem Absent.freeOf (h : t.Absent v) : t.FreeOf v := by
  intro a x hsat s hs
  have hb : s.basic ≠ v := fun hb => h.not_isBasic ⟨s, hs, hb⟩
  rw [Row.Holds, update_of_ne hb, LinExpr.eval_update_of_notMem (h.notMem_row s hs)]
  exact hsat s hs

/-- A variable that solutions do not depend on is in no row. -/
theorem FreeOf.absent {out : Option RowId} (h : t.Linked out) (hn : t.Normal)
    (hv : t.FreeOf v) : ¬t.IsBasic v ∧ ∀ s ∈ t.rows, v ∉ s.expr.vars := by
  have hbasic : ¬t.IsBasic v := by
    rintro ⟨s, hs, rfl⟩
    have hown : s.basic ∉ s.expr.vars := fun hmem => ((h.row s hs).term _ hmem).2 ⟨s, hs, rfl⟩
    have hholds := h.satisfies_rowValue s hs
    have hmoved := hv _ (t.rowValue s.basic + 1) h.satisfies_rowValue s hs
    rw [Row.Holds, update_self, LinExpr.eval_update_of_notMem hown] at hmoved
    rw [Row.Holds] at hholds
    linarith
  refine ⟨hbasic, fun s hs hmem => ?_⟩
  have hb : s.basic ≠ v := fun hb => hbasic ⟨s, hs, hb⟩
  have hcoef := (hn s hs).mem_vars_iff.mp hmem
  have hnodup := (h.row s hs).nodup
  have hzero := hv _ 0 h.satisfies_rowValue s hs
  have hone := hv _ 1 h.satisfies_rowValue s hs
  rw [Row.Holds, update_of_ne hb, LinExpr.eval_update hnodup] at hzero hone
  exact hcoef (by linarith)

/-- A variable that is in no row may be discarded. -/
theorem FreeOf.satisfies_discard (h : t.Linked none) (hn : t.Normal) (hv : t.FreeOf v) :
    (t.discard v).Satisfies a ↔ t.Satisfies a := by
  obtain ⟨hbasic, -⟩ := hv.absent h hn
  rw [h.satisfies_discard hbasic, hv.satisfies_update]

end Tableau

end LexSimplex
