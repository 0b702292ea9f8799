import LexSimplex.Fault
import LexSimplex.Tableau.Basic

/-!
# Pivoting

Minimising an objective by exchanging basic variables, one at a time. A variable **enters** the
basis if moving it lowers the objective; it moves until the first restricted basic variable
reaches zero, and that one **leaves**.

Among several variables that may enter, the one with the least handle does; among several that
stop it at the same distance, the one with the least handle leaves. With exact arithmetic this
rule never comes back to a basis.

## Main definitions

* `Tableau.entering?`, `Tableau.leaving?`: the choices.
* `Tableau.pivot`: one exchange.
* `Tableau.minimise`: exchanges until none lowers the objective.
-/

namespace LexSimplex

/-- The objectives of a tableau: its goal, and the measure of a constraint being admitted. -/
inductive Objective where
  | goal
  | phaseOne
  deriving DecidableEq

/-- Which way a variable moves from zero. -/
inductive Direction where
  | up
  | down
  deriving DecidableEq

/-- The change of a variable that moves by one. -/
def Direction.sign {K : Type} [Coefficient K] : Direction → K
  | .up => 1
  | .down => -1

/-- A row that stops a moving variable after the distance `ratio`. -/
structure Blocker (K : Type) where
  ratio : K
  basic : VarId
  row : RowId

namespace Blocker

variable {K : Type} [Coefficient K]

/-- Whether a row stops the variable sooner than another. Distances that differ by a negligible
amount are equal, and then the handle of the basic variable decides. -/
def sooner (b best : Blocker K) : Bool :=
  if Coefficient.negligible (b.ratio - best.ratio) then decide (b.basic < best.basic)
  else decide (b.ratio < best.ratio)

/-- The better of the best so far and the next. -/
def better (best : Option (Blocker K)) (b : Blocker K) : Option (Blocker K) :=
  match best with
  | none => some b
  | some x => if b.sooner x then some b else some x

/-- The one that stops the variable first, each compared with the best of those before it. -/
def first? (bs : List (Blocker K)) : Option (Blocker K) :=
  bs.foldl better none

end Blocker

/-- The one of two variables that has the lower handle, the first if it is the same. -/
def lower {β : Type} (best : Option (VarId × β)) (x : VarId × β) : Option (VarId × β) :=
  match best with
  | none => some x
  | some y => if x.1 < y.1 then some x else some y

/-- The variable with the least handle, with what goes with it. -/
def lowest? {β : Type} (vs : List (VarId × β)) : Option (VarId × β) :=
  vs.foldl lower none

namespace Tableau

variable {K Q : Type} [Coefficient K]

/-- An objective as it stands. -/
def objective (t : Tableau K Q) : Objective → Goal K
  | .goal => t.goal
  | .phaseOne => t.phaseOne.getD Goal.zero

/-- The direction in which a variable with a vector lowers the objective, if it may move there:
restricted variables can only grow, and markers stay. -/
def improving (t : Tableau K Q) (v : VarId) (vector : TierVector K) : Option Direction :=
  match t.kind v, vector.sign with
  | .constant, _ => none
  | _, .lt => some .up
  | .external, .gt => some .down
  | _, _ => none

/-- The variable with the least handle that lowers an objective, and its direction. -/
def entering? (t : Tableau K Q) (o : Objective) : Option (VarId × Direction) :=
  lowest? ((t.objective o).terms.filterMap fun term =>
    (t.improving term.1 term.2).map fun d => (term.1, d))

/-- How a row stops a variable. An external basic variable never does; a marker must stay at
zero, and does at once; a restricted one does if it falls. -/
def blocker? (t : Tableau K Q) (v : VarId) (d : Direction) (r : Row K) : Option (Blocker K) :=
  let c := r.expr.coefficient v * d.sign
  match t.kind r.basic with
  | .external => none
  | .constant => some ⟨0, r.basic, r.id⟩
  | .slack | .error => if c < 0 then some ⟨-r.expr.constant / c, r.basic, r.id⟩ else none

/-- The rows that stop a variable, in the variable's own order. -/
def blockers (t : Tableau K Q) (v : VarId) (d : Direction) : List (Blocker K) :=
  (t.referring v).filterMap (t.blocker? v d)

/-- The row that stops a variable first. -/
def leaving? (t : Tableau K Q) (v : VarId) (d : Direction) : Option RowId :=
  (Blocker.first? (t.blockers v d)).map Blocker.row

/-- A row made to define another of its variables. -/
def redefine (t : Tableau K Q) (r : Row K) (v : VarId) : Tableau K Q :=
  let e := r.expr.exchange r.basic v
  ((t.detach r).substitute v e).attach ⟨r.id, v, e⟩

/-- One exchange: `v` becomes basic in a row, for the variable that was. -/
def pivot (t : Tableau K Q) (id : RowId) (v : VarId) : Tableau K Q :=
  match t.row? id with
  | none => t
  | some r => (t.redefine r v).count fun c => { c with pivots := c.pivots + 1 }

/-- At most `fuel` exchanges towards a minimum; `limit` is what a failure is reported with. -/
def descend (o : Objective) (limit : Nat) :
    Nat → Tableau K Q → Except Fault Unit × Tableau K Q
  | 0, t =>
    match t.entering? o with
    | none => (.ok (), t)
    | some _ => (.error (.iterationLimit limit), t)
  | fuel + 1, t =>
    match t.entering? o with
    | none => (.ok (), t)
    | some (v, d) =>
      let t := t.count fun c => { c with iterations := c.iterations + 1 }
      match t.leaving? v d with
      | none => (.error (.unbounded v), t)
      | some id => descend o limit fuel (t.pivot id v)

/-- **Minimisation** of an objective, within the limit for the size that the tableau has at the
start. -/
def minimise (t : Tableau K Q) (o : Objective) : Except Fault Unit × Tableau K Q :=
  let limit := t.settings.iterationLimit t.rows.length t.vars.slots.liveCount
  descend o limit limit t

end Tableau

end LexSimplex
