import LexSimplex.Tableau.Basic

/-!
# The text of rows and constraints

An expression is written as signed terms, `2 x0 - x1 + s4`; a coefficient of one is left out. A
row has its constant in front, `x0 = 5 + s4`; a constraint has it at the end and is held against
zero, `x0 - 5 <= 0 (fixed)`.
-/

namespace LexSimplex

variable {K Q : Type} [Coefficient K]

/-- A label with the size of its coefficient in front, unless that is one. -/
def termText (label : String) (c : K) : String :=
  let size := Scalar.abs c
  if size == 1 then label else Scalar.text size ++ " " ++ label

/-- A term that follows something, its sign between. -/
def signedTerm (label : String) (c : K) : String :=
  (if c < 0 then " - " else " + ") ++ termText label c

/-- Terms that follow something. -/
def signedTerms (terms : List (String × K)) : String :=
  String.join (terms.map fun e => signedTerm e.1 e.2)

/-- A constant and then terms. -/
def constantFirst (constant : K) (terms : List (String × K)) : String :=
  Scalar.text constant ++ signedTerms terms

/-- Terms and then a constant, which is left out where it is neither above nor below zero. -/
def constantLast (constant : K) : List (String × K) → String
  | [] => Scalar.text constant
  | (label, c) :: terms =>
    (if c < 0 then "-" else "") ++ termText label c ++ signedTerms terms ++
      if constant < 0 then " - " ++ Scalar.text (-constant)
      else if 0 < constant then " + " ++ Scalar.text constant
      else ""

namespace Tableau

/-- The terms of an expression with the labels of their variables. -/
def labelled (t : Tableau K Q) (e : LinExpr K) : List (String × K) :=
  e.terms.map fun term => (t.label term.1, term.2)

/-- A row: the basic variable, the constant, the terms. -/
def rowText (t : Tableau K Q) (r : Row K) : String :=
  t.label r.basic ++ " = " ++ constantFirst r.expr.constant (t.labelled r.expr)

/-- A constraint as it was requested: terms, constant, relation to zero, and strength. -/
def describe (t : Tableau K Q) (request : Request K) (relation : Relation) : String :=
  constantLast request.expr.constant (t.labelled request.expr) ++ " " ++ relation.text ++
    " 0 (" ++ request.strength.name ++ ")"

end Tableau

end LexSimplex
