import LexSimplex.Constraint
import LexSimplex.Counters
import LexSimplex.Goal
import LexSimplex.Settings
import LexSimplex.Variable.Pool

/-!
# Tableaux

A **tableau** is the solver's working form of its constraints. Each row defines one **basic**
variable by the others: `basic = constant + Σ coefficient * variable`. Variables that are not
basic stand at zero, so the row's constant is the basic variable's value.

**Link convention.** A basic variable knows the row that defines it, and a variable that is not
basic lists the rows in which it has a term, so that a substitution visits only these. Attaching
a row, detaching it and substituting in it keep these links; no other operation changes the
variables of an attached row.

## Main definitions

* `Row`, `Tableau`: the data.
* `Tableau.definition?`, `Tableau.value`: reading a tableau.
* `Tableau.nextConstraint`, `Tableau.Unwrapped`: the handle that is given out next, and that no
  handle was given out twice.
* `Tableau.attach`, `Tableau.detach`, `Tableau.substitute`: the row operations.
* `Tableau.discard`: a variable taken out of a tableau.
-/

namespace LexSimplex

/-- A row of a tableau: the equation `basic = expr`. -/
structure Row (K : Type) where
  id : RowId
  basic : VarId
  expr : LinExpr K

/-- A tableau: variables, the slots of rows, the rows in order, the goal, the constraints, how many
constraints were `entered` since the tableau was last empty, and the record of the work done. While
a constraint is being admitted, `phaseOne` is the objective that measures by how much it fails. -/
structure Tableau (K Q : Type) where
  vars : VariablePool Q
  rowSlots : Pool Unit
  rows : List (Row K)
  goal : Goal K
  phaseOne : Option (Goal K)
  constraints : Assoc ConstraintId (Constraint K)
  entered : Nat
  settings : Settings
  counters : Counters

namespace Tableau

variable {K Q : Type}

/-! ### Reading -/

/-- The row with a handle. -/
def row? (t : Tableau K Q) (id : RowId) : Option (Row K) :=
  t.rows.find? fun r => r.id = id

/-- The row that defines a variable. Variables with one are **basic**. -/
def definition? (t : Tableau K Q) (v : VarId) : Option (Row K) :=
  ((t.vars.get? v).bind Variable.definition).bind t.row?

/-- The kind of a variable. -/
def kind (t : Tableau K Q) (v : VarId) : Kind :=
  ((t.vars.get? v).map Variable.kind).getD .external

/-- The rows in which a variable has a term, in its own order. -/
def refs (t : Tableau K Q) (v : VarId) : List RowId :=
  ((t.vars.get? v).map Variable.refs).getD []

/-- The contents of the rows in which a variable has a term. -/
def referring (t : Tableau K Q) (v : VarId) : List (Row K) :=
  (t.refs v).filterMap t.row?

/-- The handle of the constraint that is entered next. -/
def nextConstraint (t : Tableau K Q) : ConstraintId :=
  .nth t.entered

/-- The handles of constraints have not come round: fewer than `ConstraintId.total` constraints were
entered since the tableau was last empty, whatever became of them. -/
def Unwrapped (t : Tableau K Q) : Prop :=
  t.entered < ConstraintId.total

instance (t : Tableau K Q) : Decidable t.Unwrapped :=
  inferInstanceAs (Decidable (_ < _))

/-- How a variable is written. -/
def label (t : Tableau K Q) (v : VarId) : String :=
  ((t.vars.get? v).map Variable.label).getD v.text

/-! ### Counting -/

/-- The counters moved on, if they run. -/
def count (t : Tableau K Q) (f : Counters → Counters) : Tableau K Q :=
  if t.settings.counting then { t with counters := f t.counters } else t

/-! ### Variables and row slots -/

/-- A variable changed by `f`. -/
def modifyVar (t : Tableau K Q) (v : VarId) (f : Variable Q → Variable Q) : Tableau K Q :=
  { t with vars := t.vars.modify v f }

/-- A slot for one more row. -/
def acquireRow (t : Tableau K Q) : RowId × Tableau K Q :=
  let (i, slots) := t.rowSlots.acquire ()
  let grown := slots.growths - t.rowSlots.growths
  (⟨i⟩, { t with rowSlots := slots }.count fun c =>
    { c with tableSizeIncreases := c.tableSizeIncreases + grown })

/-- The slot of a row released. -/
def releaseRow (t : Tableau K Q) (id : RowId) : Tableau K Q :=
  { t with rowSlots := t.rowSlots.release id.index }

/-- What the counters say of a new variable, once `live` are live. -/
def countVariable (kind : Kind) (live grown : Nat) (c : Counters) : Counters :=
  { c with
    allVariables := c.allVariables + 1
    slackVariables := c.slackVariables + if kind = .slack then 1 else 0
    errorVariables := c.errorVariables + if kind = .error then 1 else 0
    maxVariables := max c.maxVariables live
    tableSizeIncreases := c.tableSizeIncreases + grown }

/-- A new variable, named by a stem if there is one. -/
def addVariable [Scalar Q] (t : Tableau K Q) (kind : Kind) (stem : Option String) :
    VarId × Tableau K Q :=
  let (v, vars) := t.vars.acquire kind stem
  let grown := vars.slots.growths - t.vars.slots.growths
  (v, { t with vars }.count (countVariable kind vars.slots.liveCount grown))

/-! ### Rows -/

/-- A row entered after the others, and noted with the variable that it defines and with each
that has a term in it. -/
def attach (t : Tableau K Q) (r : Row K) : Tableau K Q :=
  let vars := t.vars.modify r.basic (·.define (some r.id))
  let vars := r.expr.vars.foldl (fun p v => p.modify v (·.addRef r.id)) vars
  let rows := t.rows ++ [r]
  { t with vars, rows }.count fun c => { c with maxRows := max c.maxRows rows.length }

/-- A row taken out, and no longer noted with its variables; the last row takes its place. The
slot stays acquired. -/
def detach (t : Tableau K Q) (r : Row K) : Tableau K Q :=
  let vars := t.vars.modify r.basic (·.define none)
  let vars := r.expr.vars.foldl (fun p v => p.modify v (·.removeRef r.id)) vars
  { t with vars, rows := t.rows.swapErase fun x => x.id = r.id }

/-- A row taken out for good. -/
def dropRow (t : Tableau K Q) (r : Row K) : Tableau K Q :=
  (t.detach r).releaseRow r.id

/-- The rows with a handle among `ids` changed by `f`. -/
def mapRows (t : Tableau K Q) (ids : List RowId) (f : LinExpr K → LinExpr K) : List (Row K) :=
  t.rows.map fun r => if r.id ∈ ids then { r with expr := f r.expr } else r

variable [Coefficient K]

/-- The variables `vs` agree with a row on whether they have a term in it. -/
def relink (vs : List VarId) (r : Row K) (p : VariablePool Q) : VariablePool Q :=
  vs.foldl
    (fun p v =>
      p.modify v fun x => if r.expr.contains v then x.addRef r.id else x.removeRef r.id) p

/-- A variable replaced by an expression of it, in every row and objective. -/
def substitute (t : Tableau K Q) (v : VarId) (d : LinExpr K) : Tableau K Q :=
  let ids := t.refs v
  let rows := t.mapRows ids (·.substitute v d)
  let touched := ids.filterMap fun id => rows.find? fun r => r.id = id
  let vars := t.vars.modify v fun x => { x with refs := [] }
  { t with
    rows
    vars := touched.foldl (fun p r => relink d.vars r p) vars
    goal := t.goal.substitute v d
    phaseOne := t.phaseOne.map (·.substitute v d) }

/-- A variable taken out of every row and objective. The row that defines it goes as well. Where
the variable stands at zero, the values of the others stay. -/
def purge (t : Tableau K Q) (v : VarId) : Tableau K Q :=
  let t := match t.definition? v with
    | none => t
    | some r => t.dropRow r
  { t with
    rows := t.mapRows (t.refs v) (·.without v)
    vars := t.vars.modify v fun x => { x with refs := [] }
    goal := t.goal.without v
    phaseOne := t.phaseOne.map (·.without v) }

/-- A variable taken out of the tableau and released. -/
def discard (t : Tableau K Q) (v : VarId) : Tableau K Q :=
  let t := t.purge v
  { t with vars := t.vars.release v }

variable [Scalar Q]

/-- A tableau without variables and constraints. -/
def empty (settings : Settings) : Tableau K Q where
  vars := VariablePool.empty settings.variableRoom
  rowSlots := Pool.empty settings.rowRoom
  rows := []
  goal := Goal.zero
  phaseOne := none
  constraints := []
  entered := 0
  settings := settings
  counters := {}

/-- Everything released. Room that was made stays, and so do the counts. -/
def reset (t : Tableau K Q) : Tableau K Q where
  vars := t.vars.reset
  rowSlots := t.rowSlots.reset
  rows := []
  goal := Goal.zero
  phaseOne := none
  constraints := []
  entered := 0
  settings := t.settings
  counters := t.counters

/-- A new error variable, which the goal pays for at a tier. -/
def addError (t : Tableau K Q) (s : Strength) : VarId × Tableau K Q :=
  let (v, t) := t.addVariable .error none
  let t := t.modifyVar v fun x => { x with penalty := some s }
  (v, { t with goal := t.goal.addTerm v (TierVector.unit s) 1 })

/-! ### Values -/

/-- The constant of the row that defines a variable, zero without one. -/
def rowValue (t : Tableau K Q) (v : VarId) : K :=
  ((t.definition? v).map (·.expr.constant)).getD 0

/-- The value of a variable: its own if it is folded, else what the tableau gives it. A variable
that is not live has the value zero. -/
def value [Precision K Q] (t : Tableau K Q) (v : VarId) : K :=
  match t.vars.get? v with
  | none => 0
  | some x => if x.isFolded then Precision.widen x.computed else t.rowValue v

/-- The values of the tableau settled as those of the external variables that are not pinned. -/
def settle [Precision K Q] (t : Tableau K Q) : Tableau K Q :=
  { t with
    vars := t.vars.map fun x =>
      if x.kind = .external ∧ x.pinned = false then
        { x with computed := Precision.narrow (t.rowValue x.id) }
      else x }

end Tableau

end LexSimplex
