/-!
# Settings

What a solver is told at the start: how much room to make, when to give up, and whether to
count.
-/

namespace LexSimplex

/-- How a solver is set up. -/
structure Settings where
  /-- The variables that room is made for. -/
  variableRoom : Nat := 64
  /-- The rows that room is made for. -/
  rowRoom : Nat := 32
  /-- The most pivots of one optimisation, where it is not left to the size of the tableau. -/
  maxIterations : Option Nat := none
  /-- Whether the counters run. -/
  counting : Bool := true
  deriving DecidableEq

namespace Settings

/-- The greatest limit there is. -/
def greatestLimit : Nat := Nat.pow 2 64 - 1

/-- The most pivots of one optimisation of a tableau of a size. Unless it is set it is twice the
number of places in the tableau, with a row and a column to spare, and never below 256. -/
def iterationLimit (s : Settings) (rows columns : Nat) : Nat :=
  s.maxIterations.getD (max 256 (min greatestLimit (2 * ((rows + 1) * (columns + 1)))))

end Settings

end LexSimplex
