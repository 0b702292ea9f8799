import LexSimplex.LinExpr
import LexSimplex.Strength

/-!
# Requests

A **request** is a constraint as its author states it: an expression to be held against zero, a
strength, and error terms of the author's own. It is built up before the solver sees it, so its
variables need not exist.
-/

namespace LexSimplex

/-- A constraint under construction. Each of `errors` asks for one further error variable, with
the coefficient and the strength given. -/
structure Request (K : Type) where
  expr : LinExpr K
  strength : Strength
  errors : List (K × Strength)
  deriving DecidableEq

namespace Request

variable {K Q : Type} [Coefficient K] [Scalar Q] [Precision K Q]

/-- The request to start from: the expression zero at the standard strength. -/
def empty : Request K :=
  ⟨LinExpr.zero, Strength.standard, []⟩

/-- The terms so far with `c * v` added. A term that cancels is dropped and the terms after it
move up: an author's terms keep their order. -/
def plus (terms : Assoc VarId K) (v : VarId) (c : K) : Assoc VarId K :=
  match terms.get? v with
  | none => if Coefficient.negligible c then terms else terms ++ [(v, c)]
  | some x =>
    if Coefficient.negligible (x + c) then terms.erase v else terms.set v (x + c)

/-- The request with `c * v` added to its expression. -/
def addTerm (r : Request K) (v : VarId) (c : Q) : Request K :=
  { r with expr := { r.expr with terms := plus r.expr.terms v (Precision.widen c) } }

/-- The request with `c` added to its constant. -/
def addConstant (r : Request K) (c : Q) : Request K :=
  { r with expr := { r.expr with constant := r.expr.constant + Precision.widen c } }

/-- The request at another strength. -/
def setStrength (r : Request K) (s : Strength) : Request K :=
  { r with strength := s }

/-- The request with one more error term, of which only the sign counts. -/
def addError (r : Request K) (c : Q) (s : Strength) : Request K :=
  if c == 0 then r
  else { r with errors := r.errors ++ [(Precision.widen (Scalar.signum c), s)] }

end Request

end LexSimplex
