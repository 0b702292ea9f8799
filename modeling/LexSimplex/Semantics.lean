import LexSimplex.Arithmetic.Exact
import LexSimplex.Tableau.Basic

/-!
# What a tableau means

In exact arithmetic a row is an equation between rational numbers, and a tableau is a system of
them. This module says what it is for an **assignment** of numbers to variables to solve the
rows or a constraint, which assignments respect the kinds of the variables, and which tableaux
show a solution by their constants alone.

## Main definitions

* `LinExpr.eval`, `Relation.Holds`: the value of an expression, and how it is held against zero.
* `Tableau.Satisfies`: the rows hold.
* `Tableau.Respects`: restricted variables are not negative and markers are zero.
* `Tableau.BasicFeasible`: standing at the row constants respects the kinds.
-/

namespace LexSimplex

/-- A number for each variable. -/
abbrev Assignment := VarId → Rat

/-- The value of an expression under an assignment. -/
def LinExpr.eval (e : LinExpr Rat) (a : Assignment) : Rat :=
  e.constant + (e.terms.map fun term => term.2 * a term.1).sum

/-- A value stands in a relation to zero. -/
def Relation.Holds (relation : Relation) (x : Rat) : Prop :=
  match relation with
  | .eq => x = 0
  | .le => x ≤ 0
  | .ge => 0 ≤ x

/-- A row holds if its basic variable has the value of its expression. -/
def Row.Holds (r : Row Rat) (a : Assignment) : Prop :=
  a r.basic = r.expr.eval a

/-- A constraint's equation holds if it has the value zero. -/
def Constraint.Holds (c : Constraint Rat) (a : Assignment) : Prop :=
  c.equation.eval a = 0

namespace Tableau

/-- An assignment **satisfies** a tableau if every row holds. -/
def Satisfies (t : Tableau Rat Rat) (a : Assignment) : Prop :=
  ∀ r ∈ t.rows, r.Holds a

/-- An assignment **respects** the kinds of a tableau's variables if none that is restricted is
negative and every marker is zero. -/
def Respects (t : Tableau Rat Rat) (a : Assignment) : Prop :=
  ∀ v, ((t.kind v).restricted → 0 ≤ a v) ∧ (t.kind v = .constant → a v = 0)

/-- A tableau is **basic-feasible** if standing at the row constants respects the kinds, and if
no row of a variable that is not external mentions an external one. -/
def BasicFeasible (t : Tableau Rat Rat) : Prop :=
  ∀ r ∈ t.rows,
    ((t.kind r.basic).restricted → 0 ≤ r.expr.constant) ∧
    (t.kind r.basic = .constant → r.expr.constant = 0) ∧
    (t.kind r.basic ≠ .external → ∀ v ∈ r.expr.vars, t.kind v ≠ .external)

instance (t : Tableau Rat Rat) : Decidable t.BasicFeasible :=
  inferInstanceAs (Decidable (∀ r ∈ t.rows,
    ((t.kind r.basic).restricted → 0 ≤ r.expr.constant) ∧
    (t.kind r.basic = .constant → r.expr.constant = 0) ∧
    (t.kind r.basic ≠ .external → ∀ v ∈ r.expr.vars, t.kind v ≠ .external)))

end Tableau

end LexSimplex
