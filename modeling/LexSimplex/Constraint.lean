import LexSimplex.Relation
import LexSimplex.Request

/-!
# Constraints

A **constraint** is a request that a solver has taken in. It keeps what was requested, the
numbers that stood for the variables which had a value of their own at that time, and the
variables that were made for it. The rows of a tableau change at every pivot; what a
constraint says never changes.

## Main definitions

* `Tag`: the variables that belong to a constraint.
* `Constraint`: a request with its circumstances.
* `Constraint.expr`, `Constraint.equation`: what it says.
-/

namespace LexSimplex

/-- The variables that belong to a constraint. Its **marker** is the one by which its equation
is found again; `other` and `extra` are its further variables. The pinned variables whose values
went into it are `folded`. -/
structure Tag where
  marker : VarId
  other : Option VarId
  extra : List VarId
  folded : List VarId

/-- The variables made for a constraint, the marker first. -/
def Tag.vars (tag : Tag) : List VarId :=
  tag.marker :: (tag.other.toList ++ tag.extra)

/-- A request as it was taken in: `values` are the numbers by which it has some of its
variables. -/
structure Constraint (K : Type) where
  request : Request K
  relation : Relation
  values : Assoc VarId K
  tag : Tag

namespace Constraint

variable {K : Type} [Coefficient K]

/-- The requested expression, with numbers for the variables that have them. -/
def expr (c : Constraint K) : LinExpr K :=
  c.request.expr.terms.foldl
    (fun e term =>
      match c.values.get? term.1 with
      | some x => { e with constant := e.constant + term.2 * x }
      | none => { e with terms := e.terms ++ [term] })
    ⟨c.request.expr.constant, []⟩

/-- The marker with the coefficient `c`, and the second variable, if there is one, with the
opposite coefficient. -/
def pairTerms (tag : Tag) (c : K) : List (VarId × K) :=
  (tag.marker, c) :: tag.other.toList.map fun v => (v, -c)

/-- The terms of the variables made for a constraint: what is missing from its expression to
make an equation of it. -/
def ownTerms (c : Constraint K) : List (VarId × K) :=
  let first := match c.relation with
    | .le => pairTerms c.tag 1
    | .ge => pairTerms c.tag (-1)
    | .eq => pairTerms c.tag (if c.request.strength.hard then 1 else -1)
  first ++ c.tag.extra.zip (c.request.errors.map Prod.fst)

/-- What a constraint says, as an equation `0 = equation`: its expression and the terms of the
variables made for it. -/
def equation (c : Constraint K) : LinExpr K :=
  { c.expr with terms := c.expr.terms ++ c.ownTerms }

end Constraint

end LexSimplex
