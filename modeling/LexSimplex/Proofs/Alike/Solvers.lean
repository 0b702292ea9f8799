import LexSimplex.Proofs.Alike.Constraints
import LexSimplex.Solver.Command

/-!
# Solvers that work alike

Two solvers are **alike** if their tableaux are and they have the same status and the same pinned
and held variables. Every command gives alike solvers the same reply and leaves them alike.

## Main definitions

* `Solver.Alike`: solvers that differ in room and counts alone.

## Main results

* `Solver.Alike.perform`: a command is answered alike.
-/

namespace LexSimplex

namespace Solver

variable {K Q β : Type} {s u : Solver K Q}

/-- Solvers are **alike** if they differ in room and counts alone. -/
structure Alike (s u : Solver K Q) : Prop where
  tableau : s.tableau.Alike u.tableau
  status : s.status = u.status
  pins : s.pins = u.pins
  holds : s.holds = u.holds

/-- Results are alike if the answers are equal and the solvers after them are alike. -/
def AlikeResults (x y : β × Solver K Q) : Prop :=
  x.1 = y.1 ∧ x.2.Alike y.2

/-- Alike results as one answer with two solvers. -/
theorem AlikeResults.exists_eq {x y : β × Solver K Q} (h : AlikeResults x y) :
    ∃ b s u, x = (b, s) ∧ y = (b, u) ∧ s.Alike u :=
  ⟨x.1, x.2, y.2, rfl, Prod.ext h.1.symm rfl, h.2⟩

namespace Alike

/-- A solver is alike to another if it is that one with an alike tableau. -/
theorem exists_tableau (h : s.Alike u) :
    ∃ t, u = { s with tableau := t } ∧ s.tableau.Alike t := by
  obtain ⟨ht, hstatus, hpins, hholds⟩ := h
  refine ⟨u.tableau, ?_, ht⟩
  rw [hstatus, hpins, hholds]

/-- Alike tableaux may be put into alike solvers. -/
theorem withTableau (h : s.Alike u) {t t' : Tableau K Q} (ht : t.Alike t') :
    Alike { s with tableau := t } { u with tableau := t' } :=
  { h with tableau := ht }

/-- Alike solvers stay alike with the same holds. -/
theorem withHolds (h : s.Alike u) (holds : Assoc VarId (Hold Q)) :
    Alike { s with holds } { u with holds } :=
  { h with holds := rfl }

/-- Alike solvers stay alike with the same status. -/
theorem withStatus (h : s.Alike u) (status : Status) :
    Alike { s with status } { u with status } :=
  { h with status := rfl }

/-- Solvers with the same limit on pivots are alike after a reset, whatever was done to them. -/
theorem reset [Coefficient K] [Scalar Q]
    (h : s.tableau.settings.maxIterations = u.tableau.settings.maxIterations) :
    s.reset.Alike u.reset :=
  ⟨.reset h, rfl, rfl, rfl⟩

/-! ### What needs no arithmetic -/

/-- Declaring a variable has alike results: the same handle. -/
theorem declare [Scalar Q] (h : s.Alike u) (kind : Kind) (stem : String) :
    AlikeResults (s.declare kind stem) (u.declare kind stem) := by
  obtain ⟨v, t, t', ht, ht', hadded⟩ :=
    (h.tableau.addVariable kind (if stem = "" then none else some stem)).exists_eq
  rw [Solver.declare, Solver.declare, ht, ht']
  exact ⟨rfl, h.withTableau hadded⟩

/-- The same variables are referenced. -/
theorem isReferenced_eq (h : s.Alike u) : s.isReferenced = u.isReferenced :=
  funext fun v => by
    rw [isReferenced, isReferenced, h.tableau.kind_eq, h.tableau.definition?_eq,
      h.tableau.refs_eq]

/-- Noting a pin leaves alike solvers alike. -/
theorem notePin (h : s.Alike u) (v : VarId) (x : Q) (hidden : Option ConstraintId) :
    (s.notePin v x hidden).Alike (u.notePin v x hidden) :=
  { h with
    tableau := h.tableau.modifyVar v (·.pin x)
    status := rfl
    pins := congrArg (Assoc.insert · v hidden) h.pins }

/-- Noting a hold leaves alike solvers alike. -/
theorem noteHold (h : s.Alike u) (v : VarId) (x : Q) (id : ConstraintId) :
    (s.noteHold v x id).Alike (u.noteHold v x id) :=
  { h with
    pins := congrArg (Assoc.erase · v) h.pins
    holds := congrArg (fun m : Assoc VarId (Hold Q) => m.insert v ⟨id, x⟩) h.holds }

/-- Resetting the counters leaves alike solvers alike. -/
theorem resetCounters (h : s.Alike u) : s.resetCounters.Alike u.resetCounters :=
  { h with tableau := { h.tableau with } }

variable [Coefficient K]

/-! ### Holds and removal -/

/-- Releasing holds one after another has alike results. -/
theorem releaseAll (h : s.Alike u) (holds : List (VarId × Hold Q)) :
    AlikeResults (s.releaseAll holds) (u.releaseAll holds) := by
  induction holds generalizing s u with
  | nil => exact ⟨rfl, h⟩
  | cons hold rest ih =>
      obtain ⟨outcome, t, t', ht, ht', hremoved⟩ :=
        (h.tableau.remove hold.2.constraint).exists_eq
      have hstep : Alike { s with tableau := t, holds := s.holds.erase hold.1 }
          { u with tableau := t', holds := u.holds.erase hold.1 } :=
        { h with tableau := hremoved, holds := congrArg (Assoc.erase · hold.1) h.holds }
      rw [Solver.releaseAll, Solver.releaseAll, ht, ht']
      cases outcome with
      | error fault => exact ⟨rfl, hstep⟩
      | ok _ => exact ih hstep

/-- Releasing the holds that are idle has alike results. -/
theorem releaseIdle (h : s.Alike u) : AlikeResults s.releaseIdle u.releaseIdle := by
  have hidle : s.isIdle = u.isIdle :=
    funext fun v => by rw [isIdle, isIdle, h.tableau.vars.get?_eq]
  rw [Solver.releaseIdle, Solver.releaseIdle, h.holds, hidle]
  exact h.releaseAll _

/-- A removal has alike results. -/
theorem remove (h : s.Alike u) (id : ConstraintId) :
    AlikeResults (s.remove id) (u.remove id) := by
  obtain ⟨outcome, t, t', ht, ht', hremoved⟩ := (h.tableau.remove id).exists_eq
  rw [Solver.remove, Solver.remove, ht, ht']
  cases outcome with
  | error fault => exact ⟨rfl, h.withTableau hremoved⟩
  | ok _ => exact releaseIdle ((h.withTableau hremoved).withStatus .building)

/-- Releasing a pin has alike results. -/
theorem releasePin (h : s.Alike u) (v : VarId) :
    AlikeResults (s.releasePin v) (u.releasePin v) := by
  have hfree : Alike
      { s with tableau := s.tableau.modifyVar v Variable.unpin, pins := s.pins.erase v }
      { u with tableau := u.tableau.modifyVar v Variable.unpin, pins := u.pins.erase v } :=
    { h with
      tableau := h.tableau.modifyVar v Variable.unpin
      pins := congrArg (Assoc.erase · v) h.pins }
  rw [Solver.releasePin, Solver.releasePin, h.pins]
  rw [h.pins] at hfree
  cases (u.pins.get? v).join with
  | none => exact ⟨rfl, hfree⟩
  | some id =>
      obtain ⟨outcome, t, t', ht, ht', hremoved⟩ := (hfree.tableau.remove id).exists_eq
      dsimp only at ht ht' ⊢
      rw [ht, ht']
      exact ⟨rfl, hfree.withTableau hremoved⟩

/-! ### Adding and optimising -/

variable [Precision K Q]

/-- An optimisation has alike results. -/
theorem optimize (h : s.Alike u) : AlikeResults s.optimize u.optimize := by
  have hcount := h.tableau.count (fun c => { c with optimize := c.optimize + 1 })
    fun c => { c with optimize := c.optimize + 1 }
  obtain ⟨outcome, t, t', ht, ht', hleast⟩ := (hcount.minimise .goal).exists_eq
  rw [Solver.optimize, Solver.optimize, ht, ht']
  cases outcome with
  | error fault => exact ⟨rfl, (h.withTableau hleast).withStatus .building⟩
  | ok _ => exact ⟨rfl, (h.withTableau hleast.settle).withStatus .optimal⟩

variable [Scalar Q]

/-- An insertion has alike results. -/
theorem add (h : s.Alike u) (request : Request K) (relation : Relation) :
    AlikeResults (s.add request relation) (u.add request relation) := by
  obtain ⟨outcome, t, t', ht, ht', hinserted⟩ :=
    (h.tableau.insert request relation).exists_eq
  rw [Solver.add, Solver.add, ht, ht']
  cases outcome with
  | error fault => exact ⟨rfl, (h.withTableau hinserted).withStatus _⟩
  | ok id => exact ⟨rfl, (h.withTableau hinserted).withStatus .building⟩

/-! ### Pinning -/

/-- Attaching a pin has alike results. -/
theorem attachPin (h : s.Alike u) (v : VarId) (x : Q) :
    AlikeResults (s.attachPin v x) (u.attachPin v x) := by
  rw [Solver.attachPin, Solver.attachPin, h.isReferenced_eq]
  by_cases hv : u.isReferenced v
  · obtain ⟨outcome, s', u', hs, hu, hadded⟩ := (h.add (pinRequest v x) .eq).exists_eq
    rw [if_pos hv, if_pos hv, hs, hu]
    cases outcome with
    | error fault => exact ⟨rfl, hadded⟩
    | ok id => exact ⟨rfl, hadded.notePin v x (some id)⟩
  · rw [if_neg hv, if_neg hv]
    exact ⟨rfl, h.notePin v x none⟩

/-- Pinning a variable that is folded in has alike results. -/
theorem pinFixed (h : s.Alike u) (v : VarId) (fixed x : Q) :
    AlikeResults (s.pinFixed v fixed x) (u.pinFixed v fixed x) := by
  obtain ⟨t, rfl, ht⟩ := h.exists_tableau
  rw [Solver.pinFixed, Solver.pinFixed]
  by_cases hx : x != fixed
  · obtain ⟨fault, t, t', hs, hu, hrefused⟩ := (ht.refuse (pinRequest v x) .eq).exists_eq
    rw [if_pos hx, if_pos hx, hs, hu]
    exact ⟨rfl, (h.withTableau hrefused).withStatus .infeasible⟩
  · rw [if_neg hx, if_neg hx]
    dsimp only
    cases s.holds.get? v with
    | none => exact ⟨rfl, h⟩
    | some hold => exact ⟨rfl, (h.withHolds (s.holds.erase v)).notePin v x _⟩

/-- Pinning a pinned variable again has alike results. -/
theorem repin (h : s.Alike u) (v : VarId) (previous x : Q) :
    AlikeResults (s.repin v previous x) (u.repin v previous x) := by
  obtain ⟨outcome, s', u', hs, hu, hfree⟩ := (h.releasePin v).exists_eq
  rw [Solver.repin, Solver.repin, hs, hu]
  cases outcome with
  | error fault => exact ⟨rfl, hfree⟩
  | ok _ =>
      obtain ⟨outcome, s', u', hs, hu, hpinned⟩ := (hfree.attachPin v x).exists_eq
      dsimp only
      rw [hs, hu]
      cases outcome with
      | ok _ => exact ⟨rfl, hpinned⟩
      | error fault =>
          obtain ⟨outcome, s', u', hs, hu, hback⟩ := (hpinned.attachPin v previous).exists_eq
          dsimp only
          rw [hs, hu]
          cases outcome with
          | error fault => exact ⟨rfl, hback⟩
          | ok _ => exact ⟨rfl, hback.withStatus .infeasible⟩

/-- Pinning a variable has alike results. -/
theorem pin (h : s.Alike u) (v : VarId) (x : Q) : AlikeResults (s.pin v x) (u.pin v x) := by
  have hfixed : s.fixedValue? = u.fixedValue? :=
    funext fun v => funext fun y => by rw [fixedValue?, fixedValue?, h.holds]
  rw [Solver.pin, Solver.pin, h.tableau.vars.get?_eq, hfixed, h.pins]
  cases u.tableau.vars.get? v with
  | none => exact ⟨rfl, h⟩
  | some y =>
      dsimp only
      cases u.fixedValue? v y with
      | some fixed => exact h.pinFixed v fixed x
      | none =>
          dsimp only
          by_cases hp : u.pins.contains v
          · rw [if_pos hp, if_pos hp]
            exact h.repin v y.computed x
          · rw [if_neg hp, if_neg hp]
            exact h.attachPin v x

/-- Holding a variable that is unpinned has alike results. -/
theorem hold (h : s.Alike u) (v : VarId) (x : Q) (hidden : Option ConstraintId) :
    AlikeResults (s.hold v x hidden) (u.hold v x hidden) := by
  have hfree := h.tableau.modifyVar v Variable.unpin
  cases hidden with
  | some id => exact ⟨rfl, (h.withTableau hfree).noteHold v x id⟩
  | none =>
      obtain ⟨outcome, t, t', ht, ht', hinserted⟩ :=
        (hfree.insert (pinRequest v x) .eq).exists_eq
      rw [Solver.hold, Solver.hold, ht, ht']
      cases outcome with
      | error fault => exact ⟨rfl, h.withTableau (hinserted.modifyVar v (·.pin x))⟩
      | ok id => exact ⟨rfl, (h.withTableau hinserted).noteHold v x id⟩

/-- Unpinning a variable has alike results. -/
theorem unpin (h : s.Alike u) (v : VarId) : AlikeResults (s.unpin v) (u.unpin v) := by
  have hbuilding := h.withStatus .building
  rw [Solver.unpin, Solver.unpin, h.tableau.vars.get?_eq]
  cases u.tableau.vars.get? v with
  | none => exact ⟨rfl, h⟩
  | some y =>
      dsimp only
      rw [h.pins]
      rw [h.pins] at hbuilding
      cases u.pins.get? v with
      | none => exact hbuilding.releasePin v
      | some hidden =>
          dsimp only
          by_cases hy : 0 < y.folds
          · rw [if_pos hy, if_pos hy]
            exact hbuilding.hold v y.computed hidden
          · rw [if_neg hy, if_neg hy]
            exact hbuilding.releasePin v

/-! ### Commands -/

/-- A **command** is answered alike by alike solvers, and leaves them alike. -/
theorem perform (h : s.Alike u) (c : Command K Q) :
    AlikeResults (s.perform c) (u.perform c) := by
  have hmap : ∀ {β : Type} {x y : Except Fault β × Solver K Q} (f : β → Reply),
      AlikeResults x y → AlikeResults (x.1.map f, x.2) (y.1.map f, y.2) :=
    fun f hxy => ⟨congrArg (Except.map f) hxy.1, hxy.2⟩
  cases c with
  | declare kind stem =>
      obtain ⟨hid, hs⟩ := h.declare kind stem
      exact ⟨congrArg (fun v => Except.ok (Reply.variable v)) hid, hs⟩
  | add request relation => exact hmap .constraint (h.add request relation)
  | arrange layout strength => exact hmap .constraint (h.add _ _)
  | remove id => exact hmap (fun _ => .done) (h.remove id)
  | pin v x => exact hmap (fun _ => .done) (h.pin v x)
  | unpin v => exact hmap (fun _ => .done) (h.unpin v)
  | optimize => exact hmap (fun _ => .done) h.optimize
  | reset => exact ⟨rfl, .reset h.tableau.maxIterations⟩
  | resetCounters => exact ⟨rfl, h.resetCounters⟩

end Alike

end Solver

end LexSimplex
