import LexSimplex.Tableau.Basic

/-!
# Drafts

A **draft** is a request put into the terms of a tableau, as an equation `0 = expr` that is yet
to be attached. Basic variables are replaced by their definitions and folded variables by their
values, and variables of the constraint's own make an equation of it:

* an inequality gets a **slack** variable for the room it leaves, and, if it is soft, an
  **error** variable for what it lacks;
* a hard equality gets a **constant** to mark it;
* a soft equality gets an error variable for each direction.

The sign of the equation is chosen so that its constant is not negative.
-/

namespace LexSimplex

/-- An equation `0 = expr` with the slot for its row, and the constraint that it is of. -/
structure Draft (K : Type) where
  row : RowId
  expr : LinExpr K
  constraint : Constraint K

namespace Tableau

variable {K Q : Type} [Coefficient K] [Scalar Q] [Precision K Q]

/-- A term of a request added in terms of the tableau. -/
def absorb (t : Tableau K Q) (e : LinExpr K) (term : VarId × K) : LinExpr K :=
  match t.vars.get? term.1 with
  | none => e
  | some x =>
    if x.isFolded then
      { e with constant := e.constant + term.2 * Precision.widen x.computed }
    else match t.definition? term.1 with
      | none => e.addTerm term.1 term.2
      | some r => e.addScaled r.expr term.2

/-- An expression of a caller in terms of the tableau: no folded variable and no basic one. -/
def express (t : Tableau K Q) (e : LinExpr K) : LinExpr K :=
  e.terms.foldl t.absorb ⟨e.constant, []⟩

/-- The pinned variables of an expression. -/
def pinnedIn (t : Tableau K Q) (e : LinExpr K) : List VarId :=
  e.vars.filter fun v => (t.vars.get? v).any Variable.pinned

/-- The folded variables of an expression, with their values. -/
def valuesIn (t : Tableau K Q) (e : LinExpr K) : Assoc VarId K :=
  e.vars.filterMap fun v =>
    ((t.vars.get? v).filter Variable.isFolded).map fun x => (v, Precision.widen x.computed)

/-- The equation of an inequality whose slack has the coefficient `c`. An error variable takes
the opposite sign. -/
def closeInequality (t : Tableau K Q) (e : LinExpr K) (s : Strength) (c : K) :
    LinExpr K × Tag × Tableau K Q :=
  let (slack, t) := t.addVariable .slack none
  let e := e.setTerm slack c
  if s.hard then (e, ⟨slack, none, [], []⟩, t)
  else
    let (error, t) := t.addError s
    (e.setTerm error (-c), ⟨slack, some error, [], []⟩, t)

/-- The equation of an equality, with its marker or its two error variables. -/
def closeEquality (t : Tableau K Q) (e : LinExpr K) (s : Strength) :
    LinExpr K × Tag × Tableau K Q :=
  if s.hard then
    let (marker, t) := t.addVariable .constant none
    (e.setTerm marker 1, ⟨marker, none, [], []⟩, t)
  else
    let (above, t) := t.addError s
    let (below, t) := t.addError s
    ((e.setTerm above (-1)).setTerm below 1, ⟨above, some below, [], []⟩, t)

/-- The equation of an expression's relation to zero. -/
def close (t : Tableau K Q) (e : LinExpr K) (s : Strength) :
    Relation → LinExpr K × Tag × Tableau K Q
  | .eq => t.closeEquality e s
  | .le => t.closeInequality e s 1
  | .ge => t.closeInequality e s (-1)

/-- One of the author's error terms added. -/
def addExtra (state : LinExpr K × Tag × Tableau K Q) (error : K × Strength) :
    LinExpr K × Tag × Tableau K Q :=
  let (e, tag, t) := state
  let (v, t) := t.addError error.2
  (e.setTerm v error.1, { tag with extra := tag.extra ++ [v] }, t)

/-- The draft of a request, and the tableau with the variables made for it. -/
def draft (t : Tableau K Q) (request : Request K) (relation : Relation) :
    Draft K × Tableau K Q :=
  let folded := t.pinnedIn request.expr
  let values := t.valuesIn request.expr
  let e := t.express request.expr
  let (row, t) := t.acquireRow
  let (e, tag, t) := request.errors.foldl addExtra (t.close e request.strength relation)
  let expr := if e.constant < 0 then e.negate else e
  (⟨row, expr, ⟨request, relation, values, { tag with folded }⟩⟩, t)

/-- The variable that a draft can define at once: any external one, since these may take any
value, or one of the draft's own that comes out non-negative. -/
def subject? (t : Tableau K Q) (d : Draft K) : Option VarId :=
  (d.expr.vars.find? fun v => t.kind v = .external).or
    (d.constraint.tag.vars.find? fun v =>
      (t.kind v).restricted && decide (d.expr.coefficient v < 0))

end Tableau

end LexSimplex
