import LexSimplex.Solver.Command
import LexSimplex.Solver.Text

/-!
# What a caller sees of a solver

A **view** is everything that a caller can read of a solver between two commands, but for how much
room it has and what it counted. Watching a list of commands gives the reply to each, and the view
after it.
-/

namespace LexSimplex

/-- What a caller can read of a solver: its status, its variables and their values, its rows and
its goal with their terms in order, its constraints and notes, how much is in use, and its text. -/
structure View (K Q : Type) where
  status : Status
  lookup : VarId → Option (Variable Q)
  value : VarId → Q
  rows : List (Row K)
  goal : Goal K
  hasConstraint : ConstraintId → Bool
  isPinned : VarId → Bool
  isHeld : VarId → Bool
  rowCount : Nat
  constraintCount : Nat
  liveVariables : Nat
  liveRows : Nat
  text : String

namespace Solver

variable {K Q : Type} [Coefficient K] [Scalar Q] [Precision K Q]

/-- The view of a solver. -/
def view (s : Solver K Q) : View K Q where
  status := s.status
  lookup := s.tableau.vars.get?
  value := s.valueOf
  rows := s.tableau.rows
  goal := s.tableau.goal
  hasConstraint := s.hasConstraint
  isPinned := s.isPinned
  isHeld := s.isHeld
  rowCount := s.tableau.rows.length
  constraintCount := s.tableau.constraints.length
  liveVariables := s.tableau.vars.slots.liveCount
  liveRows := s.tableau.rowSlots.liveCount
  text := s.text

/-- The replies to commands, each with the view after it. -/
def watch (s : Solver K Q) : List (Command K Q) → List (Except Fault Reply × View K Q)
  | [] => []
  | c :: commands =>
    let (reply, s) := s.perform c
    (reply, s.view) :: s.watch commands

end Solver

end LexSimplex
