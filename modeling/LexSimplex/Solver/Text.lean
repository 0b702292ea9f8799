import LexSimplex.Solver.Basic

/-!
# The text of a solver

A line for the goal, one for each row, one for each pinned and each held variable, and the
status.
-/

namespace LexSimplex

variable {K Q : Type} [Coefficient K]

/-- The goal's constant and then its terms, each vector in front of its variable. -/
def Tableau.goalText (t : Tableau K Q) : String :=
  t.goal.constant.text ++
    String.join (t.goal.terms.map fun term => " + " ++ term.2.text ++ " " ++ t.label term.1)

namespace Solver

variable [Scalar Q] [Precision K Q]

/-- The line of a pinned variable. Its value is written with the digits of a coefficient. -/
def pinText (s : Solver K Q) (v : VarId) : String :=
  "pinned " ++ s.tableau.label v ++ " = " ++
    Scalar.text (Precision.widen (s.valueOf v) : K)

/-- The line of a held variable, with the value it is held at. -/
def holdText (s : Solver K Q) (v : VarId) (hold : Hold Q) : String :=
  "held " ++ s.tableau.label v ++ " = " ++ Scalar.text hold.value

/-- The lines of a solver. -/
def lines (s : Solver K Q) : List String :=
  ("goal: " ++ s.tableau.goalText) :: s.tableau.rows.map s.tableau.rowText ++
    s.pins.keys.map s.pinText ++ s.holds.map (fun h => s.holdText h.1 h.2) ++
    ["state: " ++ s.status.name]

/-- The solver as it stands. -/
def text (s : Solver K Q) : String :=
  "\n".intercalate s.lines

end Solver

end LexSimplex
