import LexSimplex.Arithmetic.Binary
import LexSimplex.Proofs.Alike.Solvers
import LexSimplex.Proofs.Operations
import LexSimplex.Solver.View

/-!
# A reset solver is a fresh one

After a reset a solver has slots that were made before, room that was made before and counts of
what was done before. None of these is ever seen again: the solver answers every command as a new
one does, and shows the same after it. Nor does it matter how much room a solver was set up with,
or whether it counts.

## Main definitions

* `Rewound`: a history that is empty or ends with a reset.

## Main results

* `Solver.settings_run`: no command changes the settings.
* `Solver.Alike.watch_eq`: alike solvers show the same.
* `Solver.watch_eq_of_rewound`: what was done before a reset cannot be seen after it.
-/

namespace LexSimplex

variable {K Q : Type} [Coefficient K]

/-! ### Settings are for good -/

namespace Tableau

variable {t : Tableau K Q}

omit [Coefficient K] in
@[simp] theorem settings_attach (t : Tableau K Q) (r : Row K) :
    (t.attach r).settings = t.settings :=
  settings_count _ _

omit [Coefficient K] in
@[simp] theorem settings_addVariable [Scalar Q] (t : Tableau K Q) (kind : Kind)
    (stem : Option String) : (t.addVariable kind stem).2.settings = t.settings :=
  settings_count _ _

omit [Coefficient K] in

/-- Discarding variables leaves the settings. -/
theorem settings_foldl_discard (vs : List VarId) (t : Tableau K Q) :
    (vs.foldl discard t).settings = t.settings := by
  induction vs generalizing t with
  | nil => rfl
  | cons v vs ih =>
      refine (ih _).trans ?_
      rw [discard, purge]
      cases t.definition? v <;> rfl

/-- Minimisation leaves the settings. -/
theorem settings_minimise (t : Tableau K Q) (o : Objective) :
    (t.minimise o).2.settings = t.settings := by
  refine minimise_induction (p := fun t' => t'.settings = t.settings) ?_ ?_ rfl
  · exact fun t' f h => (settings_count t' f).trans h
  · exact fun t' v d r h _ _ _ => (settings_attach _ _).trans h

/-- Settling a draft leaves the settings. -/
theorem settings_settled (t : Tableau K Q) (d : Draft K) (a : VarId) (reached : Bool) :
    (t.settled d a reached).settings = t.settings := by
  refine (settings_foldl_discard [a] _).trans ?_
  rw [retire]
  cases ({ t with phaseOne := none } : Tableau K Q).definition? a with
  | none => rfl
  | some r =>
      cases hnext : if reached then ({ t with phaseOne := none } : Tableau K Q).successor? r.expr
          d.constraint.tag.marker else none with
      | none =>
          simp only [hnext]
          rfl
      | some v =>
          simp only [hnext]
          exact settings_attach _ _

section Insert

variable [Scalar Q]

/-- Joining parts leaves the settings. -/
theorem settings_joinParts (t : Tableau K Q) (e : LinExpr K) (ps : List (Part K)) :
    (t.joinParts e ps).2.2.settings = t.settings := by
  induction ps generalizing t e with
  | nil => rfl
  | cons p ps ih =>
      rw [joinParts_cons]
      refine (ih _ _).trans ?_
      cases p <;> exact settings_addVariable t _ none

/-- Placing a draft leaves the settings. -/
theorem settings_place (t : Tableau K Q) (d : Draft K) : (t.place d).2.settings = t.settings := by
  refine place_cases (p := fun result => result.2.settings = t.settings) ?_ ?_ ?_ ?_ ?_ ?_
  · exact fun _ t' f h => (settings_count t' f).trans h
  · exact fun v _ => settings_attach _ _
  · exact fun _ _ _ _ => settings_attach _ _
  · exact fun _ => rfl
  · exact fun _ _ _ => rfl
  · intro f _
    refine ((settings_settled _ d _ _).trans (settings_minimise _ _)).trans ?_
    exact (settings_attach _ _).trans ((settings_addVariable _ _ _).trans (settings_count t f))

variable [Precision K Q]

/-- Drafting a request leaves the settings. -/
theorem settings_draft (t : Tableau K Q) (request : Request K) (relation : Relation) :
    (t.draft request relation).2.settings = t.settings := by
  obtain ⟨tag, hdraft, -⟩ := t.draft_eq request relation
  rw [hdraft]
  exact (settings_joinParts _ _ _).trans (settings_count _ _)

/-- An insertion leaves the settings. -/
theorem settings_insert (t : Tableau K Q) (request : Request K) (relation : Relation) :
    (t.insert request relation).2.settings = t.settings := by
  have hplaced : (t.placed request relation).2.settings = t.settings :=
    (settings_place _ _).trans (t.settings_draft request relation)
  refine insert_cases (p := fun result => result.2.settings = t.settings) ?_ ?_ ?_ ?_
  · exact fun _ _ _ => rfl
  · exact fun _ _ _ => hplaced
  · intro _ _
    obtain ⟨p, hp⟩ := foldl_modifyVar Variable.retainFold
      (t.draft request relation).1.constraint.tag.folded (t.placed request relation).2
    rw [register]
    dsimp only
    rw [settings_count, hp]
    exact hplaced
  · intro _ f _ _
    rw [settings_count, settings_foldl_discard]
    exact hplaced

end Insert

/-- A removal leaves the settings. -/
theorem settings_remove (t : Tableau K Q) (id : ConstraintId) :
    (t.remove id).2.settings = t.settings := by
  refine remove_cases (p := fun result => result.2.settings = t.settings) (fun _ => rfl) ?_
  intro c _
  obtain ⟨p, g, hunlisted, -⟩ := t.unlisted_eq id c.tag
  have hsettings : (t.unlisted id c.tag).settings = t.settings := by rw [hunlisted]
  rw [withdraw_eq, settings_foldl_discard]
  exact removeEquation_cases (p := fun t' => t'.settings = t.settings) (fun _ _ => hsettings)
    (fun _ _ _ => hsettings) fun _ _ => hsettings

/-- Insertions, removals and flags leave the settings alone. -/
theorem closed_settings [Scalar Q] [Precision K Q] (named : VarId → Prop) (settings : Settings) :
    Closed named fun t : Tableau K Q => t.settings = settings :=
  ⟨fun t request relation _ h => (t.settings_insert request relation).trans h,
    fun t id h => (t.settings_remove id).trans h, fun _ _ _ h => h, fun _ _ h => h,
    fun t f h => (settings_count t f).trans h⟩

end Tableau

namespace Solver

variable [Scalar Q] [Precision K Q]

/-- No command changes the settings. -/
theorem settings_perform (s : Solver K Q) (c : Command K Q) :
    (s.perform c).2.tableau.settings = s.tableau.settings := by
  have hclosed := Tableau.closed_settings (K := K) (Q := Q) (fun _ => True) s.tableau.settings
  have hkeeping : Keeping (fun _ => True) (fun t => t.settings = s.tableau.settings) s :=
    ⟨rfl, fun _ _ => trivial⟩
  cases c with
  | declare kind stem => exact Tableau.settings_addVariable _ _ _
  | add request relation => exact (hkeeping.add hclosed (fun _ _ _ => trivial) relation).tableau
  | arrange layout strength => exact (hkeeping.add hclosed (fun _ _ _ => trivial) _).tableau
  | remove id => exact (hkeeping.remove hclosed id).tableau
  | pin v x => exact (hkeeping.pin hclosed (fun _ => trivial) x).tableau
  | unpin v => exact (hkeeping.unpin hclosed v).tableau
  | optimize =>
      refine (s.tableau_optimize (p := fun t => t.settings = s.tableau.settings) ?_ ?_).1
      · exact (Tableau.settings_minimise _ _).trans (Tableau.settings_count _ _)
      · exact fun _ h => h
  | reset => rfl
  | resetCounters => rfl

/-- No command changes the settings. -/
theorem settings_run (s : Solver K Q) (commands : List (Command K Q)) :
    (s.run commands).tableau.settings = s.tableau.settings := by
  induction commands generalizing s with
  | nil => rfl
  | cons c commands ih => exact (ih _).trans (s.settings_perform c)

/-! ### What is seen -/

variable {s u : Solver K Q}

/-- Alike solvers show the same. -/
theorem Alike.view_eq (h : s.Alike u) : s.view = u.view := by
  obtain ⟨t, rfl, ht⟩ := h.exists_tableau
  have htext : s.text = Solver.text { s with tableau := t } := by
    have hrow : s.tableau.rowText = t.rowText :=
      funext fun r => by
        rw [Tableau.rowText, Tableau.rowText, Tableau.labelled, Tableau.labelled, ht.label_eq]
    have hpin : s.pinText = Solver.pinText { s with tableau := t } :=
      funext fun v => by rw [pinText, pinText, valueOf, valueOf, ht.value_eq, ht.label_eq]
    have hhold : s.holdText = Solver.holdText { s with tableau := t } :=
      funext fun v => funext fun hold => by rw [holdText, holdText, ht.label_eq]
    rw [text, text, lines, lines, Tableau.goalText, Tableau.goalText, hrow, hpin, hhold, ht.goal,
      ht.label_eq, ht.rows]
  have hvalue : s.valueOf = Solver.valueOf { s with tableau := t } :=
    funext fun v => by rw [valueOf, valueOf, ht.value_eq]
  have hcons : s.hasConstraint = Solver.hasConstraint { s with tableau := t } :=
    funext fun id => by rw [hasConstraint, hasConstraint, ht.constraints]
  rw [view, view, htext, hvalue, hcons, ht.vars.get?_eq, ht.rows, ht.goal, ht.constraints,
    ht.vars.slots.liveCount_eq, ht.rowSlots.liveCount_eq]
  rfl

/-- Alike solvers show the same after each of any commands. -/
theorem Alike.watch_eq (h : s.Alike u) (commands : List (Command K Q)) :
    s.watch commands = u.watch commands := by
  induction commands generalizing s u with
  | nil => rfl
  | cons c commands ih =>
      obtain ⟨reply, s', u', hs, hu, hnext⟩ := (h.perform c).exists_eq
      rw [watch, watch, hs, hu]
      dsimp only
      rw [hnext.view_eq, ih hnext]

end Solver

/-- A history is **rewound** if nothing was done, or if the last that was done is a reset. -/
def Rewound (history : List (Command K Q)) : Prop :=
  ∀ c ∈ history.getLast?, c = .reset

namespace Solver

variable [Scalar Q] [Precision K Q]

/-- A rewound history comes to a reset. An empty solver is one that was reset. -/
theorem exists_reset_of_rewound (settings : Settings) {history : List (Command K Q)}
    (h : Rewound history) : ∃ s : Solver K Q, s.tableau.settings = settings ∧
      (empty settings).run history = s.reset := by
  cases hlast : history.getLast? with
  | none =>
      rw [List.getLast?_eq_none_iff.mp hlast]
      exact ⟨empty settings, rfl, rfl⟩
  | some c =>
      obtain ⟨before, rfl⟩ := List.getLast?_eq_some_iff.mp hlast
      refine ⟨(empty settings).run before, settings_run _ _, ?_⟩
      rw [run, List.foldl_append, h c hlast]
      rfl

/-- Solvers with the same limit on pivots are alike after rewound histories. -/
theorem alike_of_rewound {settings settings' : Settings}
    (hlimit : settings.maxIterations = settings'.maxIterations)
    {history history' : List (Command K Q)} (h : Rewound history) (h' : Rewound history') :
    ((empty settings).run history).Alike ((empty settings').run history') := by
  obtain ⟨s, rfl, hs⟩ := exists_reset_of_rewound settings h
  obtain ⟨u, rfl, hu⟩ := exists_reset_of_rewound settings' h'
  rw [hs, hu]
  exact .reset hlimit

/-- **A reset solver is a fresh one.** Two solvers with the same limit on pivots, each new or just
reset, show the same and give the same replies and views to any commands: however much room they
were set up with, whether they count, and whatever was done before the reset. -/
theorem watch_eq_of_rewound {settings settings' : Settings}
    (hlimit : settings.maxIterations = settings'.maxIterations)
    {history history' : List (Command K Q)} (h : Rewound history) (h' : Rewound history')
    (commands : List (Command K Q)) :
    ((empty settings).run history).view = ((empty settings').run history').view ∧
      ((empty settings).run history).watch commands =
        ((empty settings').run history').watch commands :=
  ⟨(alike_of_rewound hlimit h h').view_eq, (alike_of_rewound hlimit h h').watch_eq commands⟩

/-- A solver that was used and reset, with room to spare and without counters, against a new one
without room. -/
theorem watch_eq_after_use :
    let x : VarId := ⟨0⟩
    let used : Solver Float Float32 := (empty { variableRoom := 200, counting := false }).run
      [.declare .external "x", .declare .external "y",
        .add (pinRequest x (1 : Float32)) .ge, .optimize, .reset]
    let new : Solver Float Float32 := empty { variableRoom := 0, rowRoom := 0 }
    let commands : List (Command Float Float32) :=
      [.declare .external "z", .add (pinRequest x (2 : Float32)) .eq, .remove ⟨0⟩, .unpin ⟨1⟩]
    used.view = new.view ∧ used.watch commands = new.watch commands := by
  intro x used new commands
  have hused : Rewound [Command.declare .external "x", .declare .external "y",
      .add (pinRequest x (1 : Float32)) .ge, .optimize, (.reset : Command Float Float32)] :=
    fun c hc => (Option.some.inj hc).symm
  have hnew : Rewound ([] : List (Command Float Float32)) := fun c hc => absurd hc (by simp)
  have hlimit : ({ variableRoom := 200, counting := false } : Settings).maxIterations =
      ({ variableRoom := 0, rowRoom := 0 } : Settings).maxIterations := rfl
  exact watch_eq_of_rewound hlimit hused hnew commands

end Solver

end LexSimplex
