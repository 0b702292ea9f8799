import LexSimplex.Tableau.Draft
import LexSimplex.Tableau.Pivot
import LexSimplex.Tableau.Text

/-!
# Inserting constraints

A request becomes a row of the tableau, and restricted basic variables stay non-negative. The
draft of a request is placed in one of three ways:

* a variable that it can define at once becomes basic in it;
* if it speaks of markers alone it either follows from the hard constraints, and its own marker
  becomes basic at zero, or contradicts them;
* otherwise an **artificial** variable becomes basic in it and is driven to zero. If that
  succeeds a variable of the row takes its place; if not, the request contradicts the hard
  constraints.

A contradiction is refused, and what was made for it is taken out again.
-/

namespace LexSimplex

namespace Tableau

variable {K Q : Type} [Coefficient K] [Scalar Q] [Precision K Q]

/-- What becomes basic where an artificial variable was: a restricted variable, else an external
one, else the marker. -/
def successor? (t : Tableau K Q) (e : LinExpr K) (marker : VarId) : Option VarId :=
  (e.vars.find? fun v => (t.kind v).restricted).or
    ((e.vars.find? fun v => t.kind v = .external).or
      (if e.contains marker then some marker else none))

/-- The row that an artificial variable is left basic in goes, or defines another variable if
the artificial one reached zero. -/
def retire (t : Tableau K Q) (artificial marker : VarId) (reached : Bool) : Tableau K Q :=
  match t.definition? artificial with
  | none => t
  | some r =>
    match if reached then t.successor? r.expr marker else none with
    | none => t.dropRow r
    | some v => t.redefine r v

/-- Whether an objective was brought to zero. -/
def isMet (t : Tableau K Q) (o : Objective) : Bool :=
  (t.objective o).constant.isZero

/-- A draft placed by way of an artificial variable. The result says whether the variable could
be driven to zero; if not, the row is gone. -/
def placeByArtificial (t : Tableau K Q) (d : Draft K) : Except Fault Bool × Tableau K Q :=
  let t := t.count fun c => { c with artificialConstraints := c.artificialConstraints + 1 }
  let (artificial, t) := t.addVariable .slack none
  let t := { t with phaseOne := some (Goal.ofExpr d.expr .fixed) }.attach
    ⟨d.row, artificial, d.expr⟩
  let (outcome, t) := t.minimise .phaseOne
  let reached := outcome.toBool && t.isMet .phaseOne
  let t := ({ t with phaseOne := none }.retire artificial d.constraint.tag.marker reached).discard
    artificial
  (outcome.map fun _ => reached, t)

/-- A draft that speaks of markers alone: it is redundant, or a contradiction. -/
def placeRedundant (t : Tableau K Q) (d : Draft K) : Bool × Tableau K Q :=
  if Coefficient.negligible d.expr.constant then
    let marker := d.constraint.tag.marker
    if d.expr.contains marker then
      (true, t.attach ⟨d.row, marker, d.expr.solveFor marker⟩)
    else (true, t.releaseRow d.row)
  else (false, t.releaseRow d.row)

/-- A draft placed in the tableau. The result says whether it is consistent with the hard
constraints; if not, its row is gone. -/
def place (t : Tableau K Q) (d : Draft K) : Except Fault Bool × Tableau K Q :=
  match t.subject? d with
  | some v =>
    let e := d.expr.solveFor v
    (.ok true, ((t.substitute v e).attach ⟨d.row, v, e⟩).count fun c =>
      { c with simpleConstraints := c.simpleConstraints + 1 })
  | none =>
    if d.expr.vars.all fun v => t.kind v = .constant then
      let (consistent, t) := t.placeRedundant d
      (.ok consistent, t)
    else t.placeByArtificial d

/-- A placed constraint entered under the next handle. Once the handles have come round, a
constraint that still has this handle is overwritten in its place. Its row and its variables stay.
-/
def register (t : Tableau K Q) (c : Constraint K) : ConstraintId × Tableau K Q :=
  let id := t.nextConstraint
  let t := c.tag.folded.foldl (fun t v => t.modifyVar v Variable.retainFold) t
  (id, { t with
    entered := t.entered + 1
    constraints := t.constraints.insert id c }.count fun c =>
      { c with constraints := c.constraints + 1 })

/-- A request refused as a contradiction. -/
def refuse (t : Tableau K Q) (request : Request K) (relation : Relation) :
    Fault × Tableau K Q :=
  (.infeasible (t.describe request relation),
    t.count fun c => { c with infeasible := c.infeasible + 1 })

/-- **Insertion** of a constraint. -/
def insert (t : Tableau K Q) (request : Request K) (relation : Relation) :
    Except Fault ConstraintId × Tableau K Q :=
  match request.expr.vars.find? fun v => !t.vars.isLive v with
  | some v => (.error (.unknownVariable v), t)
  | none =>
    let (d, t) := t.draft request relation
    match t.place d with
    | (.error fault, t) => (.error fault, t)
    | (.ok true, t) =>
      let (id, t) := t.register d.constraint
      (.ok id, t)
    | (.ok false, t) =>
      let (fault, t) := (d.constraint.tag.vars.foldl discard t).refuse request relation
      (.error fault, t)

end Tableau

end LexSimplex
