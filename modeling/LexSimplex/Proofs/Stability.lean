import LexSimplex.Arithmetic.Binary
import LexSimplex.Proofs.Moves

/-!
# Optimal solvers are at rest

A solver that says it is optimal said so after an optimisation. What was done to it since then
either took the word back, or changed neither the goal nor the kind of a variable in it: new
variables are not in the goal, and what fails before anything was changed leaves it alone. So no
variable lowers the goal of an optimal solver, and optimising it again makes no exchange.

Nothing here depends on the arithmetic.

## Main definitions

* `Tableau.AtRest`: no variable lowers the goal.
* `Solver.Inherits`: a solver that says it is optimal has that from an earlier one.

## Main results

* `Tableau.AtRest.minimise`: at rest, minimisation does nothing.
* `Solver.Annotated.inherits_perform`: apart from an optimisation, every command leaves an optimum
  alone or takes it back.
* `Solver.Reachable.optimize_of_optimal`: optimising an optimal solver changes nothing.
-/

namespace LexSimplex

variable {K Q : Type} [Coefficient K]

namespace Tableau

variable {t t' : Tableau K Q} {v : VarId}

/-! ### Tableaux at rest -/

/-- A variable does not lower an objective if it may not move, if it is restricted and would have
to fall, or if it is free and its vector is zero. -/
theorem improving_eq_none_iff {vector : TierVector K} : t.improving v vector = none ↔
    ((t.kind v).restricted → vector.sign ≠ .lt) ∧ (t.kind v = .external → vector.sign = .eq) := by
  rw [improving]
  cases t.kind v <;> cases vector.sign <;> simp [Kind.restricted]

/-- A tableau is **at rest** if no variable lowers its goal. -/
def AtRest (t : Tableau K Q) : Prop :=
  ∀ term ∈ t.goal.terms, t.improving term.1 term.2 = none

/-- A tableau is at rest if nothing enters for the goal. -/
theorem atRest_iff : t.AtRest ↔ t.entering? .goal = none :=
  (entering?_eq_none_iff (o := .goal)).symm

/-- Rest depends on the goal and the kinds of its variables. -/
theorem AtRest.of_goal (h : t.AtRest) (hgoal : t'.goal = t.goal)
    (hkind : ∀ v ∈ t.goal.vars, t'.kind v = t.kind v) : t'.AtRest := by
  intro term hterm
  rw [hgoal] at hterm
  have hnone := h term hterm
  rw [improving] at hnone ⊢
  rw [hkind term.1 (List.mem_map_of_mem hterm)]
  exact hnone

/-- **At rest**, minimisation does nothing. -/
theorem AtRest.minimise (h : t.AtRest) : t.minimise .goal = (.ok (), t) := by
  have henter := atRest_iff.mp h
  rw [Tableau.minimise]
  cases t.settings.iterationLimit t.rows.length t.vars.slots.liveCount with
  | zero => rw [descend, henter]
  | succ fuel => rw [descend, henter]

/-- A minimisation that succeeds ends at rest. -/
theorem atRest_minimise (hok : (t.minimise .goal).1 = .ok ()) : (t.minimise .goal).2.AtRest := by
  have houtcome := minimise_outcome .goal t
  rw [hok] at houtcome
  exact atRest_iff.mpr (Option.isNone_iff_eq_none.mp houtcome.symm)

omit [Coefficient K] in
/-- Kinds are kept where every variable keeps its own. -/
theorem kind_congr (h : (t'.vars.get? v).map Variable.kind = (t.vars.get? v).map Variable.kind) :
    t'.kind v = t.kind v := by
  rw [kind, kind, h]

/-- Settling leaves a tableau at rest. -/
theorem AtRest.settle [Precision K Q] (h : t.AtRest) : t.settle.AtRest :=
  h.of_goal rfl fun v _ => kind_congr (map_settle t v fun _ _ => rfl)

end Tableau

namespace Solver

variable {s s' : Solver K Q} {v : VarId} {id : ConstraintId}

/-! ### What becomes of an optimum -/

/-- A solver **inherits** its optimum from another if, should it say that it is optimal, the other
says so too and has the same goal over variables of the same kinds. -/
def Inherits (s s' : Solver K Q) : Prop :=
  s'.status = .optimal → s.status = .optimal ∧ s'.tableau.goal = s.tableau.goal ∧
    ∀ v ∈ s.tableau.goal.vars, s'.tableau.kind v = s.tableau.kind v

omit [Coefficient K] in

/-- A solver inherits its own optimum. -/
theorem Inherits.refl (s : Solver K Q) : s.Inherits s :=
  fun h => ⟨h, rfl, fun _ _ => rfl⟩

omit [Coefficient K] in
/-- A solver that does not say it is optimal inherits nothing. -/
theorem Inherits.of_status (h : s'.status ≠ .optimal) : s.Inherits s' :=
  fun hoptimal => absurd hoptimal h

omit [Coefficient K] in
/-- The flag of a variable and the notes of pins do not touch an optimum. -/
theorem inherits_unflag (s : Solver K Q) (v : VarId) (pins : Assoc VarId (Option ConstraintId)) :
    s.Inherits { s with tableau := s.tableau.modifyVar v Variable.unpin, pins := pins } := by
  refine fun h => ⟨h, rfl, fun w _ => Tableau.kind_congr ?_⟩
  rw [Tableau.get?_modifyVar]
  split
  · rw [Option.map_map]
    rfl
  · rfl

/-- Releasing holds leaves the status. -/
theorem status_releaseAll (holds : List (VarId × Hold Q)) (s : Solver K Q) :
    (s.releaseAll holds).2.status = s.status := by
  induction holds generalizing s with
  | nil => rfl
  | cons e rest ih =>
      rw [releaseAll]
      dsimp only
      split
      · rfl
      · exact ih _

/-- A removal that fails at once changes nothing, and one that takes its constraint out takes the
optimum back. -/
theorem inherits_remove (s : Solver K Q) (id : ConstraintId) : s.Inherits (s.remove id).2 := by
  rw [remove]
  cases hc : s.tableau.constraints.get? id with
  | none =>
      rw [Tableau.remove, hc]
      exact Inherits.refl s
  | some c =>
      rw [Tableau.remove, hc]
      refine Inherits.of_status ?_
      dsimp only
      rw [releaseIdle, status_releaseAll]
      exact Status.noConfusion

/-- Taking back a pin does not touch the status. -/
theorem status_releasePin (s : Solver K Q) (v : VarId) :
    (s.releasePin v).2.status = s.status := by
  rw [releasePin]
  dsimp only
  split <;> rfl

/-- Where a pin could not be taken back its hidden constraint was not there, so that the goal is
what it was. -/
theorem inherits_releasePin {fault : Fault} (hfault : (s.releasePin v).1 = .error fault) :
    s.Inherits (s.releasePin v).2 := by
  revert hfault
  rw [releasePin]
  dsimp only
  split
  · exact fun hfault => absurd hfault (by simp)
  · rename_i id hid
    rw [Tableau.remove]
    split
    · exact fun _ => s.inherits_unflag v (s.pins.erase v)
    · exact fun hfault => absurd hfault (by simp)

variable [Scalar Q] [Precision K Q]

/-- An insertion takes the optimum back, whatever comes of it. -/
theorem status_add (s : Solver K Q) (request : Request K) (relation : Relation) :
    (s.add request relation).2.status ≠ .optimal := by
  rw [add]
  split
  · exact Status.noConfusion
  · dsimp only
    split <;> exact Status.noConfusion

/-- Once a pin is attached the solver does not count as optimal. -/
theorem status_attachPin (s : Solver K Q) (v : VarId) (x : Q) :
    (s.attachPin v x).2.status ≠ .optimal := by
  have hadd := s.status_add (pinRequest v x) .eq
  rw [attachPin]
  split
  · split
    · rename_i heq
      rwa [heq] at hadd
    · exact Status.noConfusion
  · exact Status.noConfusion

/-- Pinning anew takes the optimum back, unless the old pin could not be taken back. -/
theorem inherits_repin (s : Solver K Q) (v : VarId) (previous x : Q) :
    s.Inherits (s.repin v previous x).2 := by
  rw [repin]
  split
  · rename_i fault s₁ hrelease
    have hinherits := inherits_releasePin (congrArg Prod.fst hrelease)
    rwa [hrelease] at hinherits
  · rename_i s₁ hrelease
    have htried := s₁.status_attachPin v x
    split
    · rename_i s₂ hattach
      rw [hattach] at htried
      exact Inherits.of_status htried
    · rename_i fault s₂ hattach
      have hback := s₂.status_attachPin v previous
      split
      · rename_i fault s₃ hagain
        rw [hagain] at hback
        exact Inherits.of_status hback
      · exact Inherits.of_status Status.noConfusion

/-- **Pinning** takes the optimum back, except where the variable is unknown or has the value
already, and nothing happens. -/
theorem inherits_pin (s : Solver K Q) (v : VarId) (x : Q) : s.Inherits (s.pin v x).2 := by
  refine pin_cases (p := fun result => s.Inherits result.2) ?_ ?_ ?_ ?_ ?_ ?_
  · exact fun _ => Inherits.refl s
  · exact fun _ _ _ _ _ _ _ => Inherits.of_status Status.noConfusion
  · exact fun _ _ _ _ _ => Inherits.refl s
  · exact fun _ _ _ _ _ => Inherits.of_status Status.noConfusion
  · exact fun y _ _ _ _ => s.inherits_repin v y.computed x
  · exact fun _ _ _ _ => Inherits.of_status (s.status_attachPin v x)

/-- Holding a variable leaves the status. -/
theorem status_hold (s : Solver K Q) (v : VarId) (x : Q) (hidden : Option ConstraintId) :
    (s.hold v x hidden).2.status = s.status := by
  rw [Solver.hold.eq_def]
  dsimp only
  split
  · rfl
  · split <;> rfl

/-- **Unpinning** a variable takes the optimum back, and where there is no such variable nothing
happens. -/
theorem inherits_unpin (s : Solver K Q) (v : VarId) : s.Inherits (s.unpin v).2 := by
  rw [unpin]
  split
  · exact Inherits.refl s
  · refine Inherits.of_status ?_
    dsimp only
    split
    · rw [status_releasePin]
      exact Status.noConfusion
    · split
      · rw [status_hold]
        exact Status.noConfusion
      · rw [status_releasePin]
        exact Status.noConfusion

omit [Precision K Q] in
/-- A new variable is not in the goal. The variables of the goal are live, and a new one was not. -/
theorem Annotated.inherits_declare (h : s.Annotated) (kind : Kind) (stem : String) :
    s.Inherits (s.declare kind stem).2 := by
  refine fun hoptimal => ⟨hoptimal, Tableau.goal_addVariable _ _ _, fun w hw => ?_⟩
  obtain ⟨name, hget⟩ := s.tableau.get?_addVariable kind (if stem = "" then none else some stem)
  refine Tableau.kind_congr (congrArg (Option.map Variable.kind) ((hget w).trans (if_neg ?_)))
  rintro rfl
  have hlive := ((h.wellFormed.linked.goal _ List.mem_cons_self).term _ hw).1
  exact VariablePool.not_isLive_of_get? (s.tableau.get?_addVariable_fst kind _) hlive

/-- Apart from an optimisation, every **command** leaves an optimum alone or takes it back. -/
theorem Annotated.inherits_perform (h : s.Annotated) {command : Command K Q}
    (hcommand : command ≠ .optimize) : s.Inherits (s.perform command).2 := by
  cases command with
  | declare kind stem => exact h.inherits_declare kind stem
  | add request relation => exact Inherits.of_status (s.status_add request relation)
  | arrange layout strength =>
      exact Inherits.of_status (s.status_add (layout.request strength) layout.relation)
  | remove id => exact s.inherits_remove id
  | pin v x => exact s.inherits_pin v x
  | unpin v => exact s.inherits_unpin v
  | optimize => exact absurd rfl hcommand
  | reset => exact Inherits.of_status Status.noConfusion
  | resetCounters => exact Inherits.refl s

omit [Scalar Q] in
/-- An optimisation that ends in an optimum ends at rest. -/
theorem atRest_optimize (h : s.optimize.2.status = .optimal) : s.optimize.2.tableau.AtRest := by
  revert h
  rw [optimize]
  split
  · rename_i t hmin
    intro _
    have hrest := Tableau.atRest_minimise (congrArg Prod.fst hmin)
    rw [hmin] at hrest
    exact hrest.settle
  · exact fun h => absurd h Status.noConfusion

/-- An **optimal** solver is at rest. -/
theorem Reachable.atRest (h : s.Reachable) (hoptimal : s.status = .optimal) :
    s.tableau.AtRest := by
  refine (h.induction (p := fun s => s.Reachable ∧ (s.status = .optimal → s.tableau.AtRest))
    (fun settings => ⟨reachable_empty settings, fun h => absurd h Status.noConfusion⟩)
    fun s c hs => ⟨hs.1.perform c, fun hoptimal => ?_⟩).2 hoptimal
  by_cases hc : c = .optimize
  · subst hc
    exact atRest_optimize hoptimal
  · obtain ⟨hbefore, hgoal, hkind⟩ := hs.1.annotated.inherits_perform hc hoptimal
    exact (hs.2 hbefore).of_goal hgoal hkind

/-! ### Optimising again -/

/-- **Optimising an optimal solver.** In an optimal solver no restricted variable has a negative
vector in the goal and no external one a vector other than zero, whatever commands, failing or not,
came after the last optimisation. So another optimisation succeeds, and all it does is to count
itself and to settle the values: it makes no exchange, and the rows, the goal, the basic variables,
the order of the rows of each variable and the notes are what they were. -/
theorem Reachable.optimize_of_optimal (h : s.Reachable) (hoptimal : s.status = .optimal) :
    (∀ term ∈ s.tableau.goal.terms,
      ((s.tableau.kind term.1).restricted → term.2.sign ≠ .lt) ∧
        (s.tableau.kind term.1 = .external → term.2.sign = .eq)) ∧
    s.optimize = (.ok (), { s with
      tableau := (s.tableau.count fun c => { c with optimize := c.optimize + 1 }).settle }) ∧
    s.optimize.2.tableau.rows = s.tableau.rows ∧ s.optimize.2.tableau.goal = s.tableau.goal ∧
    (∀ v, (s.optimize.2.tableau.vars.get? v).map Variable.links =
      (s.tableau.vars.get? v).map Variable.links) ∧
    s.optimize.2.tableau.counters.pivots = s.tableau.counters.pivots ∧
    s.optimize.2.tableau.counters.iterations = s.tableau.counters.iterations := by
  have hrest := h.atRest hoptimal
  set f : Counters → Counters := fun c => { c with optimize := c.optimize + 1 } with hf
  have hcounted : (s.tableau.count f).AtRest :=
    hrest.of_goal (Tableau.goal_count _ _) fun v _ => Tableau.kind_count _ _ v
  have heq : s.optimize = (.ok (), { s with tableau := (s.tableau.count f).settle }) := by
    rw [optimize, ← hf, hcounted.minimise, ← hoptimal]
  refine ⟨fun term hterm => Tableau.improving_eq_none_iff.mp (hrest term hterm), heq, ?_⟩
  rw [heq]
  refine ⟨Tableau.rows_count _ _, Tableau.goal_count _ _, fun v => ?_, ?_, ?_⟩
  · refine (Tableau.map_settle (s.tableau.count f) v fun _ _ => rfl).trans ?_
    rw [Tableau.vars_count]
  · change (s.tableau.count f).counters.pivots = _
    rw [Tableau.count]
    split <;> rfl
  · change (s.tableau.count f).counters.iterations = _
    rw [Tableau.count]
    split <;> rfl

/-- A solver that was optimised with one exchange. After that two commands failed, and a variable
was created. -/
def rested : Solver Float Float32 :=
  (empty {}).run
    [.declare .external "", .arrange (.value ⟨0⟩ 3) .low, .arrange (.value ⟨0⟩ 5) .medium,
      .optimize, .remove ⟨9⟩, .pin ⟨9⟩ 7, .declare .external ""]

/-- It is optimal still, with a penalty for missing the weaker value in its goal, and optimising it
again makes no further exchange. -/
theorem optimize_of_rested :
    rested.Reachable ∧ rested.status = .optimal ∧ rested.tableau.goal.terms.length = 3 ∧
      (∀ term ∈ rested.tableau.goal.terms,
        (rested.tableau.kind term.1).restricted → term.2.sign ≠ .lt) ∧
      rested.optimize.1 = .ok () ∧ rested.optimize.2.tableau.rows = rested.tableau.rows ∧
      rested.tableau.counters.pivots = 1 ∧ rested.optimize.2.tableau.counters.pivots = 1 := by
  have hreachable : rested.Reachable := ⟨{}, _, rfl⟩
  have hoptimal : rested.status = .optimal := by decide +kernel
  have hpivots : rested.tableau.counters.pivots = 1 := by decide +kernel
  obtain ⟨hsign, heq, hrows, -, -, hsame, -⟩ := hreachable.optimize_of_optimal hoptimal
  exact ⟨hreachable, hoptimal, by decide +kernel, fun term hterm => (hsign term hterm).1,
    congrArg Prod.fst heq, hrows, hpivots, hsame.trans hpivots⟩

end Solver

end LexSimplex
