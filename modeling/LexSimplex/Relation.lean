/-!
# Relations

How the expression of a constraint is held against zero.
-/

namespace LexSimplex

/-- A constraint says that its expression is equal to zero, at most zero or at least zero. -/
inductive Relation where
  | eq
  | le
  | ge
  deriving DecidableEq

namespace Relation

/-- Every relation, in the order of their declaration. -/
def all : List Relation := [.eq, .le, .ge]

/-- The sign of a relation. -/
def text : Relation → String
  | .eq => "="
  | .le => "<="
  | .ge => ">="

end Relation

end LexSimplex
