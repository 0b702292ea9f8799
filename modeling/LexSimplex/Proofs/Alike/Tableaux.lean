import LexSimplex.Proofs.Alike.Pools
import LexSimplex.Proofs.Variables
import LexSimplex.Tableau.Insert
import LexSimplex.Tableau.Remove

/-!
# Tableaux that work alike

Two tableaux are **alike** if they have the same rows, objectives and constraints in the same
order, the same variables and row slots in use, and the same limit on pivots. What they do not
have to share is room, the slots that were made and are free, the counters, and whether these
run.

Whatever decides how an operation goes, the order of rows and of row references, the least handle
among candidates, the least free slot, the limit for the size of the tableau, is shared. So every
operation gives alike tableaux the same answer and leaves them alike.

## Main definitions

* `Tableau.Alike`: tableaux that differ in room and counts alone.
* `Tableau.AlikeResults`: equal answers, with alike tableaux after them.

## Main results

* `Tableau.Alike.minimise`, `Tableau.Alike.insert`, `Tableau.Alike.remove`: the operations.
-/

namespace LexSimplex

namespace Tableau

variable {K Q β : Type} {t u : Tableau K Q}

/-- Tableaux are **alike** if they differ in room and counts alone. -/
structure Alike (t u : Tableau K Q) : Prop where
  vars : t.vars.Alike u.vars
  rowSlots : t.rowSlots.Alike u.rowSlots
  rows : t.rows = u.rows
  goal : t.goal = u.goal
  phaseOne : t.phaseOne = u.phaseOne
  constraints : t.constraints = u.constraints
  entered : t.entered = u.entered
  maxIterations : t.settings.maxIterations = u.settings.maxIterations

/-- Results are alike if the answers are equal and the tableaux after them are alike. -/
def AlikeResults (x y : β × Tableau K Q) : Prop :=
  x.1 = y.1 ∧ x.2.Alike y.2

/-- Alike results as one answer with two tableaux. -/
theorem AlikeResults.exists_eq {x y : β × Tableau K Q} (h : AlikeResults x y) :
    ∃ b t u, x = (b, t) ∧ y = (b, u) ∧ t.Alike u :=
  ⟨x.1, x.2, y.2, rfl, Prod.ext h.1.symm rfl, h.2⟩

namespace Alike

/-! ### Reading -/

/-- The same row is found at a handle. -/
theorem row?_eq (h : t.Alike u) : t.row? = u.row? :=
  funext fun id => by rw [row?, row?, h.rows]

/-- A variable is defined by the same row. -/
theorem definition?_eq (h : t.Alike u) : t.definition? = u.definition? :=
  funext fun v => by rw [definition?, definition?, h.vars.get?_eq, h.row?_eq]

/-- Variables are of the same kinds. -/
theorem kind_eq (h : t.Alike u) : t.kind = u.kind :=
  funext fun v => by rw [kind, kind, h.vars.get?_eq]

/-- Variables are mentioned by the same rows. -/
theorem refs_eq (h : t.Alike u) : t.refs = u.refs :=
  funext fun v => by rw [refs, refs, h.vars.get?_eq]

/-- The same rows refer to a variable. -/
theorem referring_eq (h : t.Alike u) : t.referring = u.referring :=
  funext fun v => by rw [referring, referring, h.refs_eq, h.row?_eq]

/-- Rows have the same labels. -/
theorem label_eq (h : t.Alike u) : t.label = u.label :=
  funext fun v => by rw [label, label, h.vars.get?_eq]

/-- The objectives are the same. -/
theorem objective_eq [Coefficient K] (h : t.Alike u) : t.objective = u.objective :=
  funext fun o => by cases o <;> simp only [objective, h.goal, h.phaseOne]

/-- Variables have the same values in the rows. -/
theorem rowValue_eq [Coefficient K] (h : t.Alike u) : t.rowValue = u.rowValue :=
  funext fun v => by rw [rowValue, rowValue, h.definition?_eq]

/-- Variables are told the same values. -/
theorem value_eq [Coefficient K] [Scalar Q] [Precision K Q] (h : t.Alike u) :
    t.value = u.value :=
  funext fun v => by rw [value, value, h.vars.get?_eq, h.rowValue_eq]

/-! ### Variables and slots -/

/-- Neither the counters nor whether they run matters. -/
theorem count (h : t.Alike u) (f g : Counters → Counters) : (t.count f).Alike (u.count g) := by
  obtain ⟨hvars, hslots, hrows, hgoal, hphase, hcons, hnext, hmax⟩ := h
  refine ⟨?_, ?_, ?_, ?_, ?_, ?_, ?_, ?_⟩
  · rwa [vars_count, vars_count]
  · rwa [rowSlots_count, rowSlots_count]
  · rwa [rows_count, rows_count]
  · rwa [goal_count, goal_count]
  · rwa [phaseOne_count, phaseOne_count]
  · rwa [constraints_count, constraints_count]
  · rwa [entered_count, entered_count]
  · rwa [settings_count, settings_count]

/-- A tableau is like itself. -/
theorem refl (t : Tableau K Q) : t.Alike t :=
  ⟨⟨fun _ => rfl, rfl⟩, fun _ => rfl, rfl, rfl, rfl, rfl, rfl, rfl⟩

/-- Counting on one side only leaves tableaux alike. -/
theorem count_left (h : t.Alike u) (f : Counters → Counters) : (t.count f).Alike u := by
  have hcount := h.count f id
  rwa [show u.count id = u from ite_self u] at hcount

/-- Alike pools of variables may be put into alike tableaux. -/
theorem withVars (h : t.Alike u) {p q : VariablePool Q} (hp : p.Alike q) :
    Alike { t with vars := p } { u with vars := q } :=
  { h with vars := hp }

/-- Alike tableaux stay alike where the same variable is changed. -/
theorem modifyVar (h : t.Alike u) (v : VarId) (f : Variable Q → Variable Q) :
    (t.modifyVar v f).Alike (u.modifyVar v f) :=
  h.withVars (h.vars.modify v f)

/-- Alike tableaux stay alike where the same variables are changed. -/
theorem foldl_modifyVar (h : t.Alike u) (f : Variable Q → Variable Q) (vs : List VarId) :
    (vs.foldl (fun t v => t.modifyVar v f) t).Alike
      (vs.foldl (fun t v => t.modifyVar v f) u) := by
  induction vs generalizing t u with
  | nil => exact h
  | cons v vs ih => exact ih (h.modifyVar v f)

/-- The same constraints may be put into alike tableaux. -/
theorem withConstraints (h : t.Alike u) (next : Nat)
    (constraints : Assoc ConstraintId (Constraint K)) :
    Alike { t with constraints, entered := next }
      { u with constraints, entered := next } :=
  { h with constraints := rfl, entered := rfl }

/-- Acquiring a row has alike results: the same handle. -/
theorem acquireRow (h : t.Alike u) : AlikeResults t.acquireRow u.acquireRow := by
  rw [Tableau.acquireRow, Tableau.acquireRow, Pool.acquire, Pool.acquire, h.rowSlots.nextFree_eq]
  have hslots : Alike { t with rowSlots := t.rowSlots.occupy () }
      { u with rowSlots := u.rowSlots.occupy () } :=
    { h with rowSlots := h.rowSlots.occupy () }
  exact ⟨rfl, hslots.count (fun c => { c with tableSizeIncreases := _ })
    fun c => { c with tableSizeIncreases := _ }⟩

/-- Releasing a row leaves alike tableaux alike. -/
theorem releaseRow (h : t.Alike u) (id : RowId) : (t.releaseRow id).Alike (u.releaseRow id) :=
  { h with rowSlots := h.rowSlots.release id.index }

/-- Adding a variable has alike results: the same handle. -/
theorem addVariable [Scalar Q] (h : t.Alike u) (kind : Kind) (stem : Option String) :
    AlikeResults (t.addVariable kind stem) (u.addVariable kind stem) := by
  obtain ⟨hid, hvars⟩ := h.vars.acquire kind stem
  exact ⟨hid, (h.withVars hvars).count _ _⟩

/-! ### Rows -/

/-- Attaching a row leaves alike tableaux alike. -/
theorem attach (h : t.Alike u) (r : Row K) : (t.attach r).Alike (u.attach r) := by
  have hvars := (h.vars.modify r.basic (·.define (some r.id))).foldl_modify r.expr.vars
    fun _ => (·.addRef r.id)
  have hrow : Alike
      { t with
        rows := t.rows ++ [r]
        vars := r.expr.vars.foldl (fun p v => p.modify v (·.addRef r.id))
          (t.vars.modify r.basic (·.define (some r.id))) }
      { u with
        rows := u.rows ++ [r]
        vars := r.expr.vars.foldl (fun p v => p.modify v (·.addRef r.id))
          (u.vars.modify r.basic (·.define (some r.id))) } :=
    { h with vars := hvars, rows := congrArg (· ++ [r]) h.rows }
  rw [Tableau.attach, Tableau.attach]
  exact hrow.count _ _

/-- Detaching a row leaves alike tableaux alike. -/
theorem detach (h : t.Alike u) (r : Row K) : (t.detach r).Alike (u.detach r) := by
  have hvars := (h.vars.modify r.basic (·.define none)).foldl_modify r.expr.vars
    fun _ => (·.removeRef r.id)
  exact { h with
    vars := hvars
    rows := congrArg (List.swapErase fun x : Row K => x.id = r.id) h.rows }

/-- Dropping a row leaves alike tableaux alike. -/
theorem dropRow (h : t.Alike u) (r : Row K) : (t.dropRow r).Alike (u.dropRow r) :=
  (h.detach r).releaseRow r.id

/-- Changing the rows has the same result. -/
theorem mapRows_eq (h : t.Alike u) : t.mapRows = u.mapRows :=
  funext fun ids => funext fun f => by rw [mapRows, mapRows, h.rows]

/-- Purging a variable from the rows leaves alike tableaux alike. -/
theorem purge (h : t.Alike u) (v : VarId) : (t.purge v).Alike (u.purge v) := by
  have hforget : ∀ {t u : Tableau K Q}, t.Alike u → Alike
      { t with
        rows := t.mapRows (t.refs v) (·.without v)
        vars := t.vars.modify v fun x => { x with refs := [] }
        goal := t.goal.without v
        phaseOne := t.phaseOne.map (·.without v) }
      { u with
        rows := u.mapRows (u.refs v) (·.without v)
        vars := u.vars.modify v fun x => { x with refs := [] }
        goal := u.goal.without v
        phaseOne := u.phaseOne.map (·.without v) } := by
    intro t u h
    exact { h with
      vars := h.vars.modify v _
      rows := by rw [h.refs_eq, h.mapRows_eq]
      goal := by rw [h.goal]
      phaseOne := by rw [h.phaseOne] }
  rw [Tableau.purge, Tableau.purge, h.definition?_eq]
  cases u.definition? v with
  | none => exact hforget h
  | some r => exact hforget (h.dropRow r)

/-- Discarding a variable leaves alike tableaux alike. -/
theorem discard (h : t.Alike u) (v : VarId) : (t.discard v).Alike (u.discard v) :=
  (h.purge v).withVars ((h.purge v).vars.release v)

/-- Discarding variables leaves alike tableaux alike. -/
theorem foldl_discard (h : t.Alike u) (vs : List VarId) :
    (vs.foldl Tableau.discard t).Alike (vs.foldl Tableau.discard u) := by
  induction vs generalizing t u with
  | nil => exact h
  | cons v vs ih => exact ih (h.discard v)

/-- The goal may be changed in the same way in alike tableaux. -/
theorem withGoal (h : t.Alike u) {f : Goal K → Goal K} :
    Alike { t with goal := f t.goal } { u with goal := f u.goal } :=
  { h with goal := congrArg f h.goal }

/-- Alike tableaux stay alike with the same objective of phase one. -/
theorem withPhaseOne (h : t.Alike u) (o : Option (Goal K)) :
    Alike { t with phaseOne := o } { u with phaseOne := o } :=
  { h with phaseOne := rfl }

/-- The same variable succeeds an artificial one. -/
theorem successor?_eq (h : t.Alike u) : t.successor? = u.successor? :=
  funext fun e => funext fun marker => by rw [successor?, successor?, h.kind_eq]

/-- A reset leaves nothing in which tableaux with the same limit on pivots could differ. -/
theorem reset [Coefficient K] [Scalar Q]
    (h : t.settings.maxIterations = u.settings.maxIterations) : t.reset.Alike u.reset :=
  ⟨.reset t.vars u.vars, .reset t.rowSlots u.rowSlots, rfl, rfl, rfl, rfl, rfl, h⟩

/-- Values are settled alike. -/
theorem settle [Coefficient K] [Precision K Q] (h : t.Alike u) : t.settle.Alike u.settle := by
  rw [Tableau.settle, Tableau.settle, h.rowValue_eq]
  exact h.withVars (h.vars.map _)

/-- Entering a constraint has alike results: the same handle. -/
theorem register (h : t.Alike u) (c : Constraint K) :
    AlikeResults (t.register c) (u.register c) := by
  have hfolded := h.foldl_modifyVar Variable.retainFold c.tag.folded
  have hnext : t.nextConstraint = u.nextConstraint := congrArg ConstraintId.nth h.entered
  rw [Tableau.register, Tableau.register, hnext]
  rw [hfolded.entered, hfolded.constraints]
  refine ⟨rfl, ?_⟩
  dsimp only
  exact (hfolded.withConstraints _ _).count _ _

variable [Coefficient K]

/-- Replacing a variable leaves alike tableaux alike. -/
theorem substitute (h : t.Alike u) (v : VarId) (d : LinExpr K) :
    (t.substitute v d).Alike (u.substitute v d) := by
  have hrelink : ∀ (rows : List (Row K)) {p q : VariablePool Q}, p.Alike q →
      (rows.foldl (fun p r => relink d.vars r p) p).Alike
        (rows.foldl (fun p r => relink d.vars r p) q) := by
    intro rows
    induction rows with
    | nil => exact fun hp => hp
    | cons r rows ih =>
        exact fun hp => ih (hp.foldl_modify d.vars fun v x =>
          if r.expr.contains v then x.addRef r.id else x.removeRef r.id)
  rw [Tableau.substitute, Tableau.substitute, h.refs_eq, h.mapRows_eq, h.goal, h.phaseOne]
  exact { h with
    vars := hrelink _ (h.vars.modify v _)
    rows := rfl
    goal := rfl
    phaseOne := rfl }

/-! ### Pivoting -/

/-- The same variable enters. -/
theorem entering?_eq (h : t.Alike u) : t.entering? = u.entering? :=
  funext fun o => by simp only [entering?, improving, h.objective_eq, h.kind_eq]

/-- The same row gives way. -/
theorem leaving?_eq (h : t.Alike u) : t.leaving? = u.leaving? := by
  have hblocker : t.blocker? = u.blocker? := by
    funext v d r
    rw [blocker?, blocker?, h.kind_eq]
  funext v d
  rw [leaving?, leaving?, blockers, blockers, h.referring_eq, hblocker]

/-- Solving a row for another variable leaves alike tableaux alike. -/
theorem redefine (h : t.Alike u) (r : Row K) (v : VarId) :
    (t.redefine r v).Alike (u.redefine r v) :=
  ((h.detach r).substitute v _).attach _

/-- The same exchange leaves alike tableaux alike. -/
theorem pivot (h : t.Alike u) (id : RowId) (v : VarId) : (t.pivot id v).Alike (u.pivot id v) := by
  rw [Tableau.pivot, Tableau.pivot, h.row?_eq]
  cases u.row? id with
  | none => exact h
  | some r => exact (h.redefine r v).count _ _

/-- Alike tableaux take the same exchanges. -/
theorem descend (h : t.Alike u) (o : Objective) (limit fuel : Nat) :
    AlikeResults (descend o limit fuel t) (Tableau.descend o limit fuel u) := by
  induction fuel generalizing t u with
  | zero =>
      rw [Tableau.descend, Tableau.descend, h.entering?_eq]
      cases u.entering? o with
      | none => exact ⟨rfl, h⟩
      | some _ => exact ⟨rfl, h⟩
  | succ fuel ih =>
      rw [Tableau.descend, Tableau.descend, h.entering?_eq]
      cases u.entering? o with
      | none => exact ⟨rfl, h⟩
      | some x =>
          obtain ⟨v, d⟩ := x
          dsimp only
          have hcount := h.count (fun c => { c with iterations := c.iterations + 1 })
            fun c => { c with iterations := c.iterations + 1 }
          rw [hcount.leaving?_eq]
          cases (u.count fun c => { c with iterations := c.iterations + 1 }).leaving? v d with
          | none => exact ⟨rfl, hcount⟩
          | some id => exact ih (hcount.pivot id v)

/-- The limit depends on the size of the tableau, which counts live variables alone. -/
theorem minimise (h : t.Alike u) (o : Objective) :
    AlikeResults (t.minimise o) (u.minimise o) := by
  rw [Tableau.minimise, Tableau.minimise, Settings.iterationLimit, Settings.iterationLimit,
    h.maxIterations, h.rows, h.vars.slots.liveCount_eq]
  exact h.descend o _ _

end Alike

end Tableau

end LexSimplex
