import LexSimplex.Layout
import LexSimplex.Solver.Basic

/-!
# Pinning

Giving variables values for good, and taking that back. A value that constraints took in as a
number cannot change while one of them is there: pinning such a variable to another value is
refused, and unpinning it leaves it held.

## Main definitions

* `Solver.pin`: a variable pinned, pinned anew, or refused.
* `Solver.unpin`: a variable free again, or held.
-/

namespace LexSimplex

namespace Solver

variable {K Q : Type} [Coefficient K] [Scalar Q]

/-- Whether the tableau speaks of a variable, so that pinning it takes a constraint. -/
def isReferenced (s : Solver K Q) (v : VarId) : Bool :=
  s.tableau.kind v ≠ .constant &&
    ((s.tableau.definition? v).isSome || !(s.tableau.refs v).isEmpty)

/-- A variable noted as pinned to a value, with the hidden constraint that holds it there. -/
def notePin (s : Solver K Q) (v : VarId) (x : Q) (hidden : Option ConstraintId) : Solver K Q :=
  { s with
    tableau := s.tableau.modifyVar v (·.pin x)
    pins := s.pins.insert v hidden
    status := .building }

/-- A pinned variable noted as held at a value by a constraint. -/
def noteHold (s : Solver K Q) (v : VarId) (x : Q) (id : ConstraintId) : Solver K Q :=
  { s with pins := s.pins.erase v, holds := s.holds.insert v ⟨id, x⟩ }

/-- A pin taken back: the variable is not pinned, and the hidden constraint is removed. -/
def releasePin (s : Solver K Q) (v : VarId) : Except Fault Unit × Solver K Q :=
  let hidden := (s.pins.get? v).join
  let s := { s with tableau := s.tableau.modifyVar v Variable.unpin, pins := s.pins.erase v }
  match hidden with
  | none => (.ok (), s)
  | some id =>
    let (outcome, tableau) := s.tableau.remove id
    (outcome, { s with tableau })

variable [Precision K Q]

/-- The request that holds a variable at a value. -/
def pinRequest (v : VarId) (x : Q) : Request K :=
  Layout.position v x

/-- A variable that is not pinned pinned to a value, by a hidden constraint where the tableau
speaks of it. -/
def attachPin (s : Solver K Q) (v : VarId) (x : Q) : Except Fault Unit × Solver K Q :=
  if s.isReferenced v then
    match s.add (pinRequest v x) .eq with
    | (.error fault, s) => (.error fault, s)
    | (.ok id, s) => (.ok (), s.notePin v x (some id))
  else (.ok (), s.notePin v x none)

/-- The value that constraints took a variable in with, if there are such constraints. -/
def fixedValue? (s : Solver K Q) (v : VarId) (y : Variable Q) : Option Q :=
  match s.holds.get? v with
  | some hold => some hold.value
  | none => if 0 < y.folds then some y.computed else none

/-- A variable that constraints took in with the value `fixed` pinned to `x`: only that value
will do. A held variable becomes pinned by the constraint that holds it. -/
def pinFixed (s : Solver K Q) (v : VarId) (fixed x : Q) : Except Fault Unit × Solver K Q :=
  if x != fixed then
    let (fault, tableau) := s.tableau.refuse (pinRequest v x) .eq
    (.error fault, { s with tableau, status := .infeasible })
  else
    match s.holds.get? v with
    | none => (.ok (), s)
    | some hold =>
      (.ok (), { s with holds := s.holds.erase v }.notePin v x (some hold.constraint))

/-- A pinned variable pinned to another value. If that is refused, the pin at `previous` is put
back. -/
def repin (s : Solver K Q) (v : VarId) (previous x : Q) : Except Fault Unit × Solver K Q :=
  match s.releasePin v with
  | (.error fault, s) => (.error fault, s)
  | (.ok (), s) =>
    match s.attachPin v x with
    | (.ok (), s) => (.ok (), s)
    | (.error fault, s) =>
      match s.attachPin v previous with
      | (.error fault, s) => (.error fault, s)
      | (.ok (), s) => (.error fault, { s with status := .infeasible })

/-- **Pinning**: a variable given a value for good. -/
def pin (s : Solver K Q) (v : VarId) (x : Q) : Except Fault Unit × Solver K Q :=
  match s.tableau.vars.get? v with
  | none => (.error (.unknownVariable v), s)
  | some y =>
    match s.fixedValue? v y with
    | some fixed => s.pinFixed v fixed x
    | none => if s.pins.contains v then s.repin v y.computed x else s.attachPin v x

/-- A pinned variable that constraints took in as a number becomes held at its value: by the
hidden constraint of its pin, or by a new one. -/
def hold (s : Solver K Q) (v : VarId) (x : Q) (hidden : Option ConstraintId) :
    Except Fault Unit × Solver K Q :=
  let free := s.tableau.modifyVar v Variable.unpin
  match hidden with
  | some id => (.ok (), { s with tableau := free }.noteHold v x id)
  | none =>
    match free.insert (pinRequest v x) .eq with
    | (.error fault, t) => (.error fault, { s with tableau := t.modifyVar v (·.pin x) })
    | (.ok id, t) => (.ok (), { s with tableau := t }.noteHold v x id)

/-- **Unpinning**: a variable free again, or held where constraints took it in as a number. -/
def unpin (s : Solver K Q) (v : VarId) : Except Fault Unit × Solver K Q :=
  match s.tableau.vars.get? v with
  | none => (.error (.unknownVariable v), s)
  | some y =>
    let s := { s with status := .building }
    match s.pins.get? v with
    | none => s.releasePin v
    | some hidden => if 0 < y.folds then s.hold v y.computed hidden else s.releasePin v

end Solver

end LexSimplex
