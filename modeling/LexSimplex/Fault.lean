import LexSimplex.Handle

/-!
# Faults

Why an operation of the solver did not succeed, and how that is put into words.
-/

namespace LexSimplex

/-- The cause of a failure. The last two are failures of pivoting: no row stops the variable
that should enter, or the limit was reached before the objective was least. -/
inductive Fault where
  /-- The constraint contradicts the hard constraints. -/
  | infeasible (constraint : String)
  | unknownConstraint (id : ConstraintId)
  | unknownVariable (v : VarId)
  | unbounded (v : VarId)
  | iterationLimit (limit : Nat)
  deriving DecidableEq

namespace Fault

/-- Whether a constraint was refused as a contradiction. -/
def isInfeasible : Fault → Bool
  | .infeasible _ => true
  | _ => false

/-- Whether pivoting failed, so that nothing is known of the constraint. -/
def isInternal : Fault → Bool
  | .unbounded _ | .iterationLimit _ => true
  | _ => false

/-- A sentence that names the cause and what it was about. -/
def message : Fault → String
  | .infeasible constraint => "Infeasible constraint: " ++ constraint
  | .unknownConstraint id => "Unknown constraint: " ++ id.text
  | .unknownVariable v => "Unknown variable: " ++ v.text
  | .unbounded v => "Objective is unbounded along " ++ v.text
  | .iterationLimit limit =>
    "Simplex did not converge within " ++ toString limit ++ " iterations"

end Fault

end LexSimplex
