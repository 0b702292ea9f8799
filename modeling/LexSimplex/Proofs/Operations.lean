import LexSimplex.Proofs.Removal
import LexSimplex.Solver.Command

/-!
# What the operations of a solver do

Adding, removing, pinning and unpinning change the tableau of a solver by insertions, removals and
flags on variables, and its notes of pinned and held variables by one variable at a time. What
those keep, the operations keep.

The kept property may depend on which variables the inserted requests name: `named` says which
these are.

## Main definitions

* `Tableau.Closed`: a property that insertions, removals and flags keep.
* `Solver.Noted`: the variable is pinned or held.
* `Solver.Keeping`: a solver whose tableau has a property, and whose notes are of named variables.

## Main results

* `Solver.tableau_add`, `Solver.tableau_optimize`: what adding and optimising come to.
* `Solver.Keeping.remove`, `Solver.Keeping.pin`, `Solver.Keeping.unpin`: the operations keep it.
* `Solver.Reachable.of_closed`: what the operations keep holds of every reachable solver.
-/

namespace LexSimplex

variable {K Q : Type}

namespace Solver

variable {s : Solver K Q} {named : VarId → Prop} {p : Tableau K Q → Prop}

/-- A variable is **noted** if it is pinned or held. -/
def Noted (s : Solver K Q) (v : VarId) : Prop :=
  v ∈ s.pins.keys ∨ v ∈ s.holds.keys

/-- A solver whose tableau has the property `p`, and whose pinned and held variables are
`named`. -/
structure Keeping (named : VarId → Prop) (p : Tableau K Q → Prop) (s : Solver K Q) : Prop where
  tableau : p s.tableau
  noted : ∀ w, s.Noted w → named w

/-- It is enough that no further variable is noted. -/
theorem Keeping.of_noted (h : Keeping named p s) {s' : Solver K Q} (ht : p s'.tableau)
    (hn : ∀ w, s'.Noted w → s.Noted w) : Keeping named p s' :=
  ⟨ht, fun w hw => h.noted w (hn w hw)⟩

/-- Optimisation minimises the goal, and settles the values if it succeeds. -/
theorem tableau_optimize [Coefficient K] [Precision K Q] (s : Solver K Q)
    (hminimised : p ((s.tableau.count fun c => { c with optimize := c.optimize + 1 }).minimise
      .goal).2)
    (hsettled : ∀ t, p t → p t.settle) :
    p s.optimize.2.tableau ∧ s.optimize.2.pins = s.pins ∧ s.optimize.2.holds = s.holds := by
  rw [optimize]
  split
  · rename_i heq
    rw [heq] at hminimised
    exact ⟨hsettled _ hminimised, rfl, rfl⟩
  · rename_i heq
    rw [heq] at hminimised
    exact ⟨hminimised, rfl, rfl⟩

section Remove

variable [Coefficient K]

end Remove

end Solver

variable [Coefficient K] [Scalar Q] [Precision K Q]

/-- A property of tableaux is **closed** for the variables `named` if it is kept by insertions of
requests in which all live variables are these, by removals, by flags on variables and by
counting. -/
structure Tableau.Closed (named : VarId → Prop) (p : Tableau K Q → Prop) : Prop where
  insert : ∀ t request relation, (∀ v ∈ request.expr.vars, t.vars.isLive v → named v) → p t →
    p (t.insert request relation).2
  remove : ∀ t id, p t → p (t.remove id).2
  pin : ∀ t v x, p t → p (t.modifyVar v (·.pin x))
  unpin : ∀ t v, p t → p (t.modifyVar v Variable.unpin)
  count : ∀ t f, p t → p (t.count f)

namespace Solver

variable {s : Solver K Q} {named : VarId → Prop} {p : Tableau K Q → Prop} {v : VarId}

/-- Adding a constraint inserts it. -/
theorem tableau_add (s : Solver K Q) (request : Request K) (relation : Relation) :
    (s.add request relation).2.tableau = (s.tableau.insert request relation).2 ∧
      (s.add request relation).2.pins = s.pins ∧ (s.add request relation).2.holds = s.holds ∧
      (s.add request relation).1 = (s.tableau.insert request relation).1 := by
  rw [add]
  split
  · rename_i h
    rw [h]
    exact ⟨rfl, rfl, rfl, rfl⟩
  · rename_i h
    rw [h]
    exact ⟨rfl, rfl, rfl, rfl⟩

/-- A request for a position names its variable. -/
theorem vars_pinRequest (v : VarId) (x : Q) :
    ∀ w ∈ (pinRequest v x : Request K).expr.vars, w = v := by
  intro w hw
  have hterms : (pinRequest v x : Request K).expr.terms =
      Request.plus [] v (Precision.widen (1 : Q)) := rfl
  rw [LinExpr.vars, hterms, Request.plus] at hw
  by_cases hz : Coefficient.negligible (Precision.widen (1 : Q) : K)
  · simp [Assoc.keys, hz] at hw
  · simpa [Assoc.keys, hz] using hw

/-! ### What is kept -/

namespace Keeping

/-- A predicate that is closed holds after an insertion. -/
theorem add (h : Keeping named p s) (hp : Tableau.Closed named p) {request : Request K}
    (hnamed : ∀ v ∈ request.expr.vars, s.tableau.vars.isLive v → named v) (relation : Relation) :
    Keeping named p (s.add request relation).2 := by
  obtain ⟨htableau, hpins, hholds, -⟩ := tableau_add s request relation
  refine h.of_noted ?_ ?_
  · rw [htableau]
    exact hp.insert _ _ _ hnamed h.tableau
  · intro w hw
    rwa [Noted, hpins, hholds] at hw

/-- Releasing holds removes their constraints. -/
theorem releaseAll (h : Keeping named p s) (hp : Tableau.Closed named p)
    (holds : List (VarId × Hold Q)) : Keeping named p (s.releaseAll holds).2 := by
  induction holds generalizing s with
  | nil => exact h
  | cons hold rest ih =>
      have hstep : Keeping named p
          { s with
            tableau := (s.tableau.remove hold.2.constraint).2
            holds := s.holds.erase hold.1 } := by
        refine h.of_noted (hp.remove _ _ h.tableau) fun w hw => ?_
        exact hw.imp_right fun hmem => (Assoc.mem_keys_erase.mp hmem).2
      rw [Solver.releaseAll]
      dsimp only
      split
      · exact hstep
      · exact ih hstep

/-- It holds after the idle holds are released. -/
theorem releaseIdle (h : Keeping named p s) (hp : Tableau.Closed named p) :
    Keeping named p s.releaseIdle.2 :=
  h.releaseAll hp _

/-- A removal, with the holds that it makes idle. -/
theorem remove (h : Keeping named p s) (hp : Tableau.Closed named p) (id : ConstraintId) :
    Keeping named p (s.remove id).2 := by
  have hremoved := hp.remove _ id h.tableau
  rw [Solver.remove]
  split
  · rename_i heq
    rw [heq] at hremoved
    exact ⟨hremoved, h.noted⟩
  · rename_i heq
    rw [heq] at hremoved
    exact releaseIdle ⟨hremoved, h.noted⟩ hp

/-- A pin taken back, and its hidden constraint with it. -/
theorem releasePin (h : Keeping named p s) (hp : Tableau.Closed named p) (v : VarId) :
    Keeping named p (s.releasePin v).2 := by
  have hfree := hp.unpin s.tableau v h.tableau
  have hnotes : ∀ (s' : Solver K Q), p s'.tableau → s'.pins = s.pins.erase v →
      s'.holds = s.holds → Keeping named p s' := by
    intro s' ht hpins hholds
    refine h.of_noted ht fun w hw => ?_
    rw [Noted, hpins, hholds] at hw
    exact hw.imp_left fun hmem => (Assoc.mem_keys_erase.mp hmem).2
  rw [Solver.releasePin]
  dsimp only
  split
  · exact hnotes _ hfree rfl rfl
  · exact hnotes _ (hp.remove _ _ hfree) rfl rfl

/-- Noting a variable as pinned. -/
theorem notePin (h : Keeping named p s) (hp : Tableau.Closed named p) (hv : named v) (x : Q)
    (hidden : Option ConstraintId) : Keeping named p (s.notePin v x hidden) := by
  refine ⟨hp.pin s.tableau v x h.tableau, fun w hw => ?_⟩
  rcases hw with hw | hw
  · rcases (Assoc.mem_keys_insert _ _ _ _).mp hw with rfl | hw
    · exact hv
    · exact h.noted w (.inl hw)
  · exact h.noted w (.inr hw)

/-- It holds after a pin is attached. -/
theorem attachPin (h : Keeping named p s) (hp : Tableau.Closed named p) (hv : named v) (x : Q) :
    Keeping named p (s.attachPin v x).2 := by
  have hnamed : ∀ w ∈ (pinRequest v x : Request K).expr.vars,
      s.tableau.vars.isLive w → named w :=
    fun w hw _ => (vars_pinRequest v x w hw).symm ▸ hv
  have hadd := h.add hp hnamed .eq
  rw [Solver.attachPin]
  split
  · split
    · rename_i heq
      rwa [heq] at hadd
    · rename_i heq
      rw [heq] at hadd
      exact hadd.notePin hp hv x _
  · exact h.notePin hp hv x none

/-- It holds after a variable that is folded in is pinned. -/
theorem pinFixed (h : Keeping named p s) (hp : Tableau.Closed named p) (hv : named v)
    (fixed x : Q) : Keeping named p (s.pinFixed v fixed x).2 := by
  rw [Solver.pinFixed]
  have hrefuse : p (s.tableau.refuse (pinRequest v x) .eq).2 :=
    hp.count s.tableau (fun c => { c with infeasible := c.infeasible + 1 }) h.tableau
  split
  · exact ⟨hrefuse, h.noted⟩
  · split
    · exact h
    · refine notePin ?_ hp hv x _
      refine h.of_noted h.tableau fun w hw => ?_
      exact hw.imp_right fun hmem => (Assoc.mem_keys_erase.mp hmem).2

/-- It holds after a pinned variable is pinned again. -/
theorem repin (h : Keeping named p s) (hp : Tableau.Closed named p) (hv : named v)
    (previous x : Q) : Keeping named p (s.repin v previous x).2 := by
  have hrelease := h.releasePin hp v
  rw [Solver.repin]
  split
  · rename_i heq
    rwa [heq] at hrelease
  · rename_i heq
    rw [heq] at hrelease
    have hattach := hrelease.attachPin hp hv x
    split
    · rename_i heq
      rwa [heq] at hattach
    · rename_i heq
      rw [heq] at hattach
      have hback := hattach.attachPin hp hv previous
      split
      · rename_i heq
        rwa [heq] at hback
      · rename_i heq
        rw [heq] at hback
        exact ⟨hback.tableau, hback.noted⟩

/-- Pinning a variable that is named, if it is live. -/
theorem pin (h : Keeping named p s) (hp : Tableau.Closed named p)
    (hv : s.tableau.vars.isLive v → named v) (x : Q) : Keeping named p (s.pin v x).2 := by
  rw [Solver.pin]
  split
  · exact h
  · rename_i y hy
    have hv := hv (VariablePool.isLive_iff.mpr ⟨y, hy⟩)
    split
    · exact h.pinFixed hp hv _ x
    · split
      · exact h.repin hp hv _ x
      · exact h.attachPin hp hv x

/-- A pinned variable that becomes held was noted already. -/
theorem hold (h : Keeping named p s) (hp : Tableau.Closed named p) (hv : named v) (x : Q)
    (hidden : Option ConstraintId) : Keeping named p (s.hold v x hidden).2 := by
  have hfree := hp.unpin s.tableau v h.tableau
  have hnotes : ∀ (s' : Solver K Q) id, p s'.tableau → s'.pins = s.pins → s'.holds = s.holds →
      Keeping named p (s'.noteHold v x id) := by
    intro s' id ht hpins hholds
    refine ⟨ht, fun w hw => ?_⟩
    rcases hw with hw | hw
    · exact h.noted w (.inl (hpins ▸ (Assoc.mem_keys_erase.mp hw).2))
    · rcases (Assoc.mem_keys_insert _ _ _ _).mp hw with rfl | hw
      · exact hv
      · exact h.noted w (.inr (hholds ▸ hw))
  cases hidden with
  | some id => exact hnotes _ id hfree rfl rfl
  | none =>
      rw [Solver.hold]
      have hinsert := hp.insert _ (pinRequest v x) .eq
        (fun w hw _ => (vars_pinRequest v x w hw).symm ▸ hv) hfree
      split
      · rename_i heq
        rw [heq] at hinsert
        exact ⟨hp.pin _ v x hinsert, h.noted⟩
      · rename_i heq
        rw [heq] at hinsert
        exact hnotes _ _ hinsert rfl rfl

/-- It holds after a variable is unpinned. -/
theorem unpin (h : Keeping named p s) (hp : Tableau.Closed named p) (v : VarId) :
    Keeping named p (s.unpin v).2 := by
  have hbuilding : Keeping named p { s with status := .building } := ⟨h.tableau, h.noted⟩
  rw [Solver.unpin]
  split
  · exact h
  · dsimp only
    split
    · exact hbuilding.releasePin hp v
    · rename_i hidden hpinned
      have hv : v ∈ s.pins.keys :=
        Assoc.contains_iff.mp (Option.isSome_iff_exists.mpr ⟨hidden, hpinned⟩)
      split
      · exact hbuilding.hold hp (h.noted v (.inl hv)) _ hidden
      · exact hbuilding.releasePin hp v

end Keeping

/-- A closed property of tableaux that new variables, minimisation of the goal, settling and a
fresh start keep holds of the tableau of every reachable solver. -/
theorem Reachable.of_closed (hp : Tableau.Closed (fun _ => True) p)
    (hempty : ∀ settings, p (Tableau.empty settings))
    (hnew : ∀ t kind stem, p t → p (t.addVariable kind stem).2)
    (hminimise : ∀ t, p t → p (t.minimise .goal).2) (hsettle : ∀ t, p t → p t.settle)
    (hreset : ∀ t, p t → p t.reset) (hcounters : ∀ t, p t → p { t with counters := {} })
    (h : s.Reachable) : p s.tableau := by
  refine h.induction (p := fun s => p s.tableau) hempty fun s c hs => ?_
  have hkeeping : Keeping (fun _ => True) p s := ⟨hs, fun _ _ => trivial⟩
  cases c with
  | declare kind stem => exact hnew _ kind _ hs
  | add request relation => exact (hkeeping.add hp (fun _ _ _ => trivial) relation).tableau
  | arrange layout strength => exact (hkeeping.add hp (fun _ _ _ => trivial) _).tableau
  | remove id => exact (hkeeping.remove hp id).tableau
  | pin v x => exact (hkeeping.pin hp (fun _ => trivial) x).tableau
  | unpin v => exact (hkeeping.unpin hp v).tableau
  | optimize =>
      have hcounted := hp.count s.tableau (fun c => { c with optimize := c.optimize + 1 }) hs
      exact (s.tableau_optimize (hminimise _ hcounted) hsettle).1
  | reset => exact hreset _ hs
  | resetCounters => exact hcounters _ hs

end Solver

end LexSimplex
