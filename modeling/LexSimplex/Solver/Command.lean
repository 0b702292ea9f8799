import LexSimplex.Solver.Pin

/-!
# Commands

Everything a caller can do to a solver, as data: a run of a solver is a list of commands, and
what holds of every run is shown by what each command keeps.

## Main definitions

* `Command`, `Reply`, `Solver.perform`: a call of a solver and its answer.
* `Solver.run`, `Solver.Reachable`: what calls lead to.

## Main results

* `Solver.Reachable.induction`: what every command keeps holds of every reachable solver.
-/

namespace LexSimplex

/-- A call of a solver. -/
inductive Command (K Q : Type) where
  /-- A new variable of a kind, named by a stem unless that is empty. -/
  | declare (kind : Kind) (stem : String)
  | add (request : Request K) (relation : Relation)
  | arrange (layout : Layout Q) (strength : Strength)
  | remove (id : ConstraintId)
  | pin (v : VarId) (x : Q)
  | unpin (v : VarId)
  | optimize
  | reset
  | resetCounters

/-- What a command that succeeds gives back. -/
inductive Reply where
  | variable (v : VarId)
  | constraint (id : ConstraintId)
  | done
  deriving DecidableEq

namespace Solver

variable {K Q : Type} [Coefficient K] [Scalar Q] [Precision K Q]

/-- A constraint between positions added. -/
def arrange (s : Solver K Q) (layout : Layout Q) (strength : Strength) :
    Except Fault ConstraintId × Solver K Q :=
  s.add (layout.request strength) layout.relation

/-- A command carried out. -/
def perform (s : Solver K Q) : Command K Q → Except Fault Reply × Solver K Q
  | .declare kind stem =>
    let (v, s) := s.declare kind stem
    (.ok (.variable v), s)
  | .add request relation =>
    let (outcome, s) := s.add request relation
    (outcome.map .constraint, s)
  | .arrange layout strength =>
    let (outcome, s) := s.arrange layout strength
    (outcome.map .constraint, s)
  | .remove id =>
    let (outcome, s) := s.remove id
    (outcome.map fun _ => .done, s)
  | .pin v x =>
    let (outcome, s) := s.pin v x
    (outcome.map fun _ => .done, s)
  | .unpin v =>
    let (outcome, s) := s.unpin v
    (outcome.map fun _ => .done, s)
  | .optimize =>
    let (outcome, s) := s.optimize
    (outcome.map fun _ => .done, s)
  | .reset => (.ok .done, s.reset)
  | .resetCounters => (.ok .done, s.resetCounters)

/-- The solver after a list of commands, whether they succeed or not. -/
def run (s : Solver K Q) (commands : List (Command K Q)) : Solver K Q :=
  commands.foldl (fun s c => (s.perform c).2) s

/-- A solver is **reachable** if some commands lead to it from an empty one. -/
def Reachable (s : Solver K Q) : Prop :=
  ∃ settings commands, s = (empty settings).run commands

/-- An empty solver is reachable. -/
theorem reachable_empty (settings : Settings) : (empty settings : Solver K Q).Reachable :=
  ⟨settings, [], rfl⟩

/-- A command leads from a reachable solver to a reachable one. -/
theorem Reachable.perform {s : Solver K Q} (h : s.Reachable) (c : Command K Q) :
    (s.perform c).2.Reachable := by
  obtain ⟨settings, commands, rfl⟩ := h
  refine ⟨settings, commands ++ [c], ?_⟩
  simp [run]

/-- What holds of every empty solver and is kept by every command holds of every reachable
solver. -/
theorem Reachable.induction {p : Solver K Q → Prop} (start : ∀ settings, p (empty settings))
    (step : ∀ s c, p s → p (s.perform c).2) {s : Solver K Q} (h : s.Reachable) : p s := by
  obtain ⟨settings, commands, rfl⟩ := h
  suffices ∀ s, p s → p (s.run commands) from this _ (start settings)
  induction commands with
  | nil => exact fun s hs => hs
  | cons c commands ih => exact fun s hs => ih _ (step s c hs)

end Solver

end LexSimplex
