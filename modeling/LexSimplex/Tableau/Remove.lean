import LexSimplex.Tableau.Pivot

/-!
# Removing constraints

A constraint is taken out by its marker. If the marker is basic its row is the constraint's and
goes. Otherwise the marker is first made basic in a row chosen so that restricted variables stay
non-negative, and that row goes.
-/

namespace LexSimplex

namespace Tableau

variable {K Q : Type} [Coefficient K]

/-- The penalty of an error variable taken out of the goal, through its row if it is basic. -/
def unpenalise (t : Tableau K Q) (v : VarId) : Tableau K Q :=
  match t.vars.get? v with
  | none => t
  | some x =>
    if x.kind = .error then
      match t.definition? v with
      | none => { t with goal := t.goal.addTerm v x.vector (-1) }
      | some r => { t with goal := t.goal.addScaled r.expr x.vector (-1) }
    else t

/-- The rows in which a marker has more than a negligible coefficient. -/
def marked (t : Tableau K Q) (marker : VarId) : List (Row K) :=
  (t.referring marker).filter fun r => !Coefficient.negligible (r.expr.coefficient marker)

/-- A row with a basic variable that is not external, as it stops a marker from growing. -/
def growthBlocker? (t : Tableau K Q) (marker : VarId) (r : Row K) : Option (Blocker K) :=
  let c := r.expr.coefficient marker
  if t.kind r.basic ≠ .external ∧ c < 0 then
    some ⟨-r.expr.constant / c, r.basic, r.id⟩
  else none

/-- A row with a basic variable that is not external and that rises with a marker, by the
distance at which it would be zero. -/
def riser? (t : Tableau K Q) (marker : VarId) (r : Row K) : Option (Blocker K) :=
  let c := r.expr.coefficient marker
  if t.kind r.basic ≠ .external ∧ ¬c < 0 then
    some ⟨r.expr.constant / c, r.basic, r.id⟩
  else none

/-- The row in which a marker is made basic: the first to stop its growth, else the first of
those that rise with it, else the one whose external basic variable has the least handle. -/
def markerRow? (t : Tableau K Q) (marker : VarId) : Option RowId :=
  let rows := t.marked marker
  let free := rows.filterMap fun r =>
    if t.kind r.basic = .external then some (r.basic, r.id) else none
  ((Blocker.first? (rows.filterMap (t.growthBlocker? marker))).map Blocker.row).or
    (((Blocker.first? (rows.filterMap (t.riser? marker))).map Blocker.row).or
      ((lowest? free).map Prod.snd))

/-- The equation of a marker taken out of the rows. -/
def removeEquation (t : Tableau K Q) (marker : VarId) : Tableau K Q :=
  match t.definition? marker with
  | some r => t.dropRow r
  | none =>
    match (t.markerRow? marker).bind t.row? with
    | none => t
    | some r => ((t.detach r).substitute marker (r.expr.exchange r.basic marker)).releaseRow r.id

/-- A constraint taken out with the variables made for it. -/
def withdraw (t : Tableau K Q) (id : ConstraintId) (tag : Tag) : Tableau K Q :=
  let t := { t with constraints := t.constraints.erase id }
  let t := tag.folded.foldl (fun t v => t.modifyVar v Variable.releaseFold) t
  let t := tag.vars.foldl unpenalise t
  tag.vars.foldl discard (t.removeEquation tag.marker)

/-- **Removal** of a constraint by its handle. -/
def remove (t : Tableau K Q) (id : ConstraintId) : Except Fault Unit × Tableau K Q :=
  match t.constraints.get? id with
  | none => (.error (.unknownConstraint id), t)
  | some c => (.ok (), t.withdraw id c.tag)

end Tableau

end LexSimplex
