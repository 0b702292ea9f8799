/-!
# Counters

What a solver counts of its own work. Counters never influence a solution.
-/

namespace LexSimplex

/-- Counts of requests, of work done, and of variables made, and the greatest sizes seen. -/
structure Counters where
  constraints : Nat := 0
  simpleConstraints : Nat := 0
  artificialConstraints : Nat := 0
  infeasible : Nat := 0
  optimize : Nat := 0
  iterations : Nat := 0
  pivots : Nat := 0
  allVariables : Nat := 0
  slackVariables : Nat := 0
  errorVariables : Nat := 0
  maxRows : Nat := 0
  maxVariables : Nat := 0
  tableSizeIncreases : Nat := 0
  deriving DecidableEq

namespace Counters

/-- Each counter with its caption. -/
def entries (c : Counters) : List (String × Nat) :=
  [("constraints", c.constraints),
   ("simple constraints", c.simpleConstraints),
   ("artificial constraints", c.artificialConstraints),
   ("infeasible", c.infeasible),
   ("optimize", c.optimize),
   ("iterations", c.iterations),
   ("pivots", c.pivots),
   ("variables", c.allVariables),
   ("slack variables", c.slackVariables),
   ("error variables", c.errorVariables),
   ("max rows", c.maxRows),
   ("max variables", c.maxVariables),
   ("table size increases", c.tableSizeIncreases)]

/-- A heading and a line for each counter. -/
def text (c : Counters) : String :=
  "\n".intercalate
    ("*** Metrics ***" :: c.entries.map fun e => e.1 ++ ": " ++ toString e.2)

end Counters

end LexSimplex
