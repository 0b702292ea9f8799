import LexSimplex.Tableau.Insert
import LexSimplex.Tableau.Remove

/-!
# Solvers

A **solver** is a tableau with what its callers are told of it: a status, the variables they
pinned, and the variables that must keep their values although they are no longer pinned. This
module has the operations that do not concern pinning.

A variable that is **pinned** has a value for good. If it occurred in constraints at that time, a
hidden constraint holds it there. A variable that is **held** was released by its caller, but
constraints that took its value in as a number are still there, and a hidden constraint holds it
until the last of them is removed.

**Result convention.** An operation gives its result and the solver after it, also where it
fails.

## Main definitions

* `Status`, `Solver`: the data.
* `Solver.declare`, `Solver.add`, `Solver.arrange`, `Solver.remove`, `Solver.optimize`,
  `Solver.reset`: the operations.
* `Solver.valueOf`: the value of a variable.
-/

namespace LexSimplex

/-- What can be said of a solver's values: they are under construction, or a least solution, or
the last constraint was refused as a contradiction. -/
inductive Status where
  | building
  | optimal
  | infeasible
  deriving DecidableEq

/-- The word for a status. -/
def Status.name : Status → String
  | .building => "Building"
  | .optimal => "Optimal"
  | .infeasible => "Infeasible"

/-- A constraint that holds a variable at a value. -/
structure Hold (Q : Type) where
  constraint : ConstraintId
  value : Q

/-- A tableau with its status, the pinned variables with their hidden constraints, and the held
variables. -/
structure Solver (K Q : Type) where
  tableau : Tableau K Q
  status : Status
  pins : Assoc VarId (Option ConstraintId)
  holds : Assoc VarId (Hold Q)

namespace Solver

variable {K Q : Type} [Coefficient K] [Scalar Q]

/-- Whether a variable is pinned. -/
def isPinned (s : Solver K Q) (v : VarId) : Bool :=
  s.pins.contains v

/-- Whether a variable is held. -/
def isHeld (s : Solver K Q) (v : VarId) : Bool :=
  s.holds.contains v

/-- Whether a handle is that of a constraint. -/
def hasConstraint (s : Solver K Q) (id : ConstraintId) : Bool :=
  s.tableau.constraints.contains id

/-- A solver without variables and constraints. -/
def empty (settings : Settings) : Solver K Q :=
  ⟨Tableau.empty settings, .building, [], []⟩

/-- A new variable. A stem that is not empty names it. -/
def declare (s : Solver K Q) (kind : Kind) (stem : String) : VarId × Solver K Q :=
  let (v, tableau) := s.tableau.addVariable kind (if stem = "" then none else some stem)
  (v, { s with tableau })

/-- Whether a held variable may go free: no constraint has its value as a number. -/
def isIdle (s : Solver K Q) (v : VarId) : Bool :=
  match s.tableau.vars.get? v with
  | none => true
  | some x => x.folds == 0

/-- The holds of the given variables released, up to the first failure. -/
def releaseAll (s : Solver K Q) : List (VarId × Hold Q) → Except Fault Unit × Solver K Q
  | [] => (.ok (), s)
  | (v, hold) :: rest =>
    let (outcome, tableau) := s.tableau.remove hold.constraint
    let s := { s with tableau, holds := s.holds.erase v }
    match outcome with
    | .error fault => (.error fault, s)
    | .ok () => s.releaseAll rest

/-- The holds that are no longer needed released. -/
def releaseIdle (s : Solver K Q) : Except Fault Unit × Solver K Q :=
  s.releaseAll (s.holds.filter fun h => s.isIdle h.1)

/-- A constraint removed by its handle, and with it the holds that only it needed. -/
def remove (s : Solver K Q) (id : ConstraintId) : Except Fault Unit × Solver K Q :=
  match s.tableau.remove id with
  | (.error fault, tableau) => (.error fault, { s with tableau })
  | (.ok (), tableau) => { s with tableau, status := .building }.releaseIdle

variable [Precision K Q]

/-- A constraint added. One that contradicts the hard constraints is refused. -/
def add (s : Solver K Q) (request : Request K) (relation : Relation) :
    Except Fault ConstraintId × Solver K Q :=
  match s.tableau.insert request relation with
  | (.ok id, tableau) => (.ok id, { s with tableau, status := .building })
  | (.error fault, tableau) =>
    let status := if fault.isInfeasible then .infeasible else .building
    (.error fault, { s with tableau, status })

/-- **Optimisation**: the goal is brought to its minimum and the values are settled. -/
def optimize (s : Solver K Q) : Except Fault Unit × Solver K Q :=
  let t := s.tableau.count fun c => { c with optimize := c.optimize + 1 }
  match t.minimise .goal with
  | (.ok (), t) => (.ok (), { s with tableau := t.settle, status := .optimal })
  | (.error fault, t) => (.error fault, { s with tableau := t, status := .building })

/-- Everything released. Room that was made stays, and so do the counts. -/
def reset (s : Solver K Q) : Solver K Q :=
  ⟨s.tableau.reset, .building, [], []⟩

/-- The counts begun anew. -/
def resetCounters (s : Solver K Q) : Solver K Q :=
  { s with tableau := { s.tableau with counters := {} } }

/-- The value of a variable, as a quantity. -/
def valueOf (s : Solver K Q) (v : VarId) : Q :=
  Precision.narrow (s.tableau.value v)

end Solver

end LexSimplex
