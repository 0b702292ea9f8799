import LexSimplex.Solver.Command

/-!
# Sessions

A solver gives out handles, and whatever a caller passes in is taken for one. A **session** is a
solver with what its caller was told: the variables that were created and the requests that were
accepted. With it one can say of a run that the caller kept to certain commands.

## Main definitions

* `Session`, `Session.perform`: a solver with its caller's knowledge.
* `Session.Run`: the sessions that allowed commands lead to.
* `Session.Authored`: a command names no variable that the solver made for itself.
* `Session.Additive`: a command that takes nothing back.
* `Session.Careful`: an authored command that removes no hidden constraint.
-/

namespace LexSimplex

namespace Command

variable {K Q : Type} [Coefficient K] [Scalar Q] [Precision K Q]

/-- The request that a command makes. -/
def request? : Command K Q → Option (Request K × Relation)
  | .add request relation => some (request, relation)
  | .arrange layout strength => some (layout.request strength, layout.relation)
  | _ => none

/-- The constraint that a command removes. -/
def removed? : Command K Q → Option ConstraintId
  | .remove id => some id
  | _ => none

/-- The variables that the rows and pins of a command name. -/
def names (c : Command K Q) : List VarId :=
  match c with
  | .pin v _ => [v]
  | _ => (c.request?.map fun x => x.1.expr.vars).getD []

end Command

/-- A constraint is **hidden** in a solver if it holds a pinned or a held variable. -/
def Solver.IsHidden {K Q : Type} (s : Solver K Q) (id : ConstraintId) : Prop :=
  (∃ v, s.pins.get? v = some (some id)) ∨
    ∃ v hold, s.holds.get? v = some hold ∧ hold.constraint = id

instance {K Q : Type} (s : Solver K Q) (id : ConstraintId) : Decidable (s.IsHidden id) :=
  decidable_of_iff ((∃ v ∈ s.pins.keys, s.pins.get? v = some (some id)) ∨
      ∃ v ∈ s.holds.keys, (s.holds.get? v).map Hold.constraint = some id) <| by
    have hpin : ∀ v, s.pins.get? v = some (some id) → v ∈ s.pins.keys := fun v hv =>
      Assoc.contains_iff.mp (Option.isSome_iff_exists.mpr ⟨_, hv⟩)
    have hhold : ∀ v hold, s.holds.get? v = some hold → v ∈ s.holds.keys := fun v hold hv =>
      Assoc.contains_iff.mp (Option.isSome_iff_exists.mpr ⟨hold, hv⟩)
    constructor
    · rintro (⟨v, -, hv⟩ | ⟨v, -, hv⟩)
      · exact .inl ⟨v, hv⟩
      · obtain ⟨hold, hv, hid⟩ := Option.map_eq_some_iff.mp hv
        exact .inr ⟨v, hold, hv, hid⟩
    · rintro (⟨v, hv⟩ | ⟨v, hold, hv, hid⟩)
      · exact .inl ⟨v, hpin v hv, hv⟩
      · exact .inr ⟨v, hhold v hold hv, by rw [hv, Option.map_some, hid]⟩

/-- A solver with the variables that its caller created and the requests that were accepted,
since the solver was last empty. -/
structure Session (K Q : Type) where
  solver : Solver K Q
  created : List VarId
  accepted : List (Request K × Relation)

namespace Session

variable {K Q : Type} [Coefficient K] [Scalar Q]

/-- A session with an empty solver. -/
def start (settings : Settings) : Session K Q :=
  ⟨Solver.empty settings, [], []⟩

variable [Precision K Q]

/-- What the caller learns from the reply to a command. -/
def learn (s : Session K Q) (c : Command K Q) (reply : Except Fault Reply) : Session K Q :=
  match reply with
  | .ok (.variable v) => { s with created := v :: s.created }
  | .ok (.constraint _) => { s with accepted := c.request?.toList ++ s.accepted }
  | _ =>
    match c with
    | .reset => { s with created := [], accepted := [] }
    | _ => s

/-- A command carried out, and its reply noted. -/
def perform (s : Session K Q) (c : Command K Q) : Session K Q :=
  { s.learn c (s.solver.perform c).1 with solver := (s.solver.perform c).2 }

/-- The sessions that commands lead to, each of which is allowed where it is given. -/
inductive Run (allowed : Session K Q → Command K Q → Prop) : Session K Q → Prop
  | start (settings : Settings) : Run allowed (start settings)
  | step {s : Session K Q} {c : Command K Q} (h : Run allowed s) (hc : allowed s c) :
    Run allowed (s.perform c)

/-- A command is **authored** if every live variable that its rows and pins name was created by
the caller. -/
def Authored (s : Session K Q) (c : Command K Q) : Prop :=
  ∀ v ∈ c.names, s.solver.tableau.vars.isLive v → v ∈ s.created

instance (s : Session K Q) (c : Command K Q) : Decidable (s.Authored c) :=
  inferInstanceAs (Decidable (∀ v ∈ c.names, s.solver.tableau.vars.isLive v → v ∈ s.created))

/-- A command is **additive** if it creates, adds or optimises, or pins an external variable that
is neither pinned nor held. -/
def Additive (s : Session K Q) : Command K Q → Prop
  | .declare _ _ | .add _ _ | .arrange _ _ | .optimize => True
  | .pin v _ => s.solver.tableau.kind v = .external ∧
      s.solver.isPinned v = false ∧ s.solver.isHeld v = false
  | .remove _ | .unpin _ | .reset | .resetCounters => False

instance (s : Session K Q) (c : Command K Q) : Decidable (s.Additive c) :=
  match c with
  | .declare _ _ | .add _ _ | .arrange _ _ | .optimize => inferInstanceAs (Decidable True)
  | .pin v _ => inferInstanceAs (Decidable (s.solver.tableau.kind v = .external ∧
      s.solver.isPinned v = false ∧ s.solver.isHeld v = false))
  | .remove _ | .unpin _ | .reset | .resetCounters => inferInstanceAs (Decidable False)

/-- A command is **careful** if it is authored and does not remove a hidden constraint, whose
handle no caller was given. -/
def Careful (s : Session K Q) (c : Command K Q) : Prop :=
  s.Authored c ∧ ∀ id ∈ c.removed?, ¬s.solver.IsHidden id

instance (s : Session K Q) (c : Command K Q) : Decidable (s.Careful c) :=
  inferInstanceAs (Decidable (s.Authored c ∧ ∀ id ∈ c.removed?, ¬s.solver.IsHidden id))

/-- What more is allowed, more sessions are led to. -/
theorem Run.mono {allowed more : Session K Q → Command K Q → Prop} {s : Session K Q}
    (h : s.Run allowed) (hmore : ∀ s c, allowed s c → more s c) : s.Run more := by
  induction h with
  | start settings => exact .start settings
  | step _ hc ih => exact .step ih (hmore _ _ hc)

/-- Every session's solver is reachable. -/
theorem Run.reachable {allowed : Session K Q → Command K Q → Prop} {s : Session K Q}
    (h : s.Run allowed) : s.solver.Reachable := by
  induction h with
  | start settings => exact Solver.reachable_empty settings
  | step _ _ ih => exact ih.perform _

end Session

end LexSimplex
