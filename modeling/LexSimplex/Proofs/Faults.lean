import LexSimplex.Proofs.Operations

/-!
# Where faults come from

A command fails because a handle is unknown, because a value contradicts what was folded, or
because an insertion or a minimisation on the way failed. So a kind of fault that no insertion and
no minimisation raises, and which is none of the first two, is never the answer to a command.

## Main definitions

* `Tableau.Raises`: the faults that insertions raise.

## Main results

* `Solver.Keeping.fault_perform`: the fault of a command is one that was raised on the way.
-/

namespace LexSimplex

variable {K Q : Type} [Coefficient K] [Scalar Q] [Precision K Q]

/-- Insertions into tableaux with the property `p` **raise** faults of the kind `raised` alone.
Among these are unknown handles and contradictions. -/
structure Tableau.Raises (named : VarId → Prop) (p : Tableau K Q → Prop) (raised : Fault → Prop) :
    Prop where
  insert : ∀ t request relation fault,
    (∀ v ∈ request.expr.vars, t.vars.isLive v → named v) → p t →
      (t.insert request relation).1 = .error fault → raised fault
  infeasible : ∀ text, raised (.infeasible text)
  unknownVariable : ∀ v, raised (.unknownVariable v)
  unknownConstraint : ∀ id, raised (.unknownConstraint id)

variable {named : VarId → Prop} {p : Tableau K Q → Prop} {raised : Fault → Prop}
  {s : Solver K Q} {v : VarId} {fault : Fault}

/-- A removal fails where there is no such constraint. -/
theorem Tableau.Raises.remove (hr : Tableau.Raises named p raised) {t : Tableau K Q}
    {id : ConstraintId} (h : (t.remove id).1 = .error fault) : raised fault := by
  rw [Tableau.remove] at h
  cases hc : t.constraints.get? id with
  | none =>
      rw [hc] at h
      exact Except.error.inj h ▸ hr.unknownConstraint id
  | some c =>
      rw [hc] at h
      exact absurd h (by simp)

namespace Solver

/-- Releasing holds one after another raises what removals raise. -/
theorem fault_releaseAll (hr : Tableau.Raises named p raised) (holds : List (VarId × Hold Q))
    (h : (s.releaseAll holds).1 = .error fault) : raised fault := by
  induction holds generalizing s with
  | nil => exact absurd h (by simp [releaseAll])
  | cons hold rest ih =>
      rw [releaseAll] at h
      dsimp only at h
      split at h
      · rename_i hremove
        exact hr.remove (hremove.trans h)
      · exact ih h

/-- A removal raises what the tableau raises. -/
theorem fault_remove (hr : Tableau.Raises named p raised) (id : ConstraintId)
    (h : (s.remove id).1 = .error fault) : raised fault := by
  rw [remove] at h
  split at h
  · rename_i hremove
    exact hr.remove ((congrArg Prod.fst hremove).trans h)
  · exact fault_releaseAll hr _ h

/-- Releasing a pin raises what removals raise. -/
theorem fault_releasePin (hr : Tableau.Raises named p raised) (v : VarId)
    (h : (s.releasePin v).1 = .error fault) : raised fault := by
  rw [releasePin] at h
  dsimp only at h
  split at h
  · exact absurd h (by simp)
  · exact hr.remove h

/-- Pinning a variable that is folded in raises what removals raise. -/
theorem fault_pinFixed (hr : Tableau.Raises named p raised) (v : VarId) (fixed x : Q)
    (h : (s.pinFixed v fixed x).1 = .error fault) : raised fault := by
  rw [pinFixed] at h
  split at h
  · exact Except.error.inj h ▸ hr.infeasible _
  · split at h
    · exact absurd h (by simp)
    · exact absurd h (by simp)

namespace Keeping

/-- Adding a constraint fails as its insertion does. -/
theorem fault_add (hs : Keeping named p s) (hr : Tableau.Raises named p raised)
    {request : Request K} (hnamed : ∀ v ∈ request.expr.vars, s.tableau.vars.isLive v → named v)
    (relation : Relation) (h : (s.add request relation).1 = .error fault) : raised fault := by
  obtain ⟨-, -, -, houtcome⟩ := tableau_add s request relation
  exact hr.insert _ _ _ _ hnamed hs.tableau (houtcome.symm.trans h)

/-- Attaching a pin raises what insertions raise. -/
theorem fault_attachPin (hs : Keeping named p s) (hr : Tableau.Raises named p raised)
    (hv : named v) (x : Q) (h : (s.attachPin v x).1 = .error fault) : raised fault := by
  have hnamed : ∀ w ∈ (pinRequest v x : Request K).expr.vars,
      s.tableau.vars.isLive w → named w :=
    fun w hw _ => (vars_pinRequest v x w hw).symm ▸ hv
  rw [Solver.attachPin] at h
  split at h
  · split at h
    · rename_i hadd
      obtain rfl := Except.error.inj h
      exact hs.fault_add hr hnamed .eq (congrArg Prod.fst hadd)
    · exact absurd h (by simp)
  · exact absurd h (by simp)

/-- Pinning anew fails where the old pin cannot be taken back, where the new one is refused, or
where the old one cannot be put back. -/
theorem fault_repin (hs : Keeping named p s) (hp : Tableau.Closed named p)
    (hr : Tableau.Raises named p raised) (hv : named v) (previous x : Q)
    (h : (s.repin v previous x).1 = .error fault) : raised fault := by
  have hrelease := hs.releasePin hp v
  rw [Solver.repin] at h
  split at h
  · rename_i hreleased
    exact fault_releasePin hr v ((congrArg Prod.fst hreleased).trans h)
  · rename_i hreleased
    rw [hreleased] at hrelease
    have hattach := hrelease.attachPin hp hv x
    split at h
    · exact absurd h (by simp)
    · rename_i hattached
      rw [hattached] at hattach
      split at h
      · rename_i hback
        exact hattach.fault_attachPin hr hv previous ((congrArg Prod.fst hback).trans h)
      · obtain rfl := Except.error.inj h
        exact hrelease.fault_attachPin hr hv x (congrArg Prod.fst hattached)

/-- Pinning raises what insertions and removals raise. -/
theorem fault_pin (hs : Keeping named p s) (hp : Tableau.Closed named p)
    (hr : Tableau.Raises named p raised) (hv : s.tableau.vars.isLive v → named v) (x : Q)
    (h : (s.pin v x).1 = .error fault) : raised fault := by
  rw [Solver.pin] at h
  split at h
  · exact Except.error.inj h ▸ hr.unknownVariable v
  · rename_i y hy
    have hv := hv (VariablePool.isLive_iff.mpr ⟨y, hy⟩)
    split at h
    · exact fault_pinFixed hr v _ x h
    · split at h
      · exact hs.fault_repin hp hr hv _ x h
      · exact hs.fault_attachPin hr hv x h

/-- Holding a variable raises what insertions raise. -/
theorem fault_hold (hs : Keeping named p s) (hp : Tableau.Closed named p)
    (hr : Tableau.Raises named p raised) (hv : named v) (x : Q) (hidden : Option ConstraintId)
    (h : (s.hold v x hidden).1 = .error fault) : raised fault := by
  cases hidden with
  | some id => exact absurd h (by simp [Solver.hold])
  | none =>
      rw [Solver.hold] at h
      split at h
      · rename_i hinsert
        obtain rfl := Except.error.inj h
        exact hr.insert _ _ _ _ (fun w hw _ => (vars_pinRequest v x w hw).symm ▸ hv)
          (hp.unpin s.tableau v hs.tableau) (congrArg Prod.fst hinsert)
      · exact absurd h (by simp)

/-- Unpinning raises what insertions and removals raise. -/
theorem fault_unpin (hs : Keeping named p s) (hp : Tableau.Closed named p)
    (hr : Tableau.Raises named p raised) (v : VarId) (h : (s.unpin v).1 = .error fault) :
    raised fault := by
  have hbuilding : Keeping named p { s with status := .building } := ⟨hs.tableau, hs.noted⟩
  rw [Solver.unpin] at h
  split at h
  · exact Except.error.inj h ▸ hr.unknownVariable v
  · dsimp only at h
    split at h
    · exact fault_releasePin hr v h
    · rename_i hidden hpinned
      have hv : v ∈ s.pins.keys :=
        Assoc.contains_iff.mp (Option.isSome_iff_exists.mpr ⟨hidden, hpinned⟩)
      split at h
      · exact hbuilding.fault_hold hp hr (hs.noted v (.inl hv)) _ hidden h
      · exact fault_releasePin hr v h

/-- The **fault of a command** is one that was raised on the way. -/
theorem fault_perform (hs : Keeping (fun _ => True) p s) (hp : Tableau.Closed (fun _ => True) p)
    (hr : Tableau.Raises (fun _ => True) p raised)
    (hminimise : ∀ t fault, p t → (t.minimise .goal).1 = .error fault → raised fault)
    (c : Command K Q) (h : (s.perform c).1 = .error fault) : raised fault := by
  have hmap : ∀ {α : Type} {f : α → Reply} {outcome : Except Fault α},
      outcome.map f = .error fault → outcome = .error fault := by
    intro α f outcome hfault
    cases outcome with
    | ok a => exact absurd hfault (by simp [Except.map])
    | error e => exact congrArg Except.error (Except.error.inj hfault)
  cases c with
  | declare kind stem => exact absurd h (by simp [perform])
  | add request relation => exact hs.fault_add hr (fun _ _ _ => trivial) relation (hmap h)
  | arrange layout strength => exact hs.fault_add hr (fun _ _ _ => trivial) _ (hmap h)
  | remove id => exact fault_remove hr id (hmap h)
  | pin v x => exact hs.fault_pin hp hr (fun _ => trivial) x (hmap h)
  | unpin v => exact hs.fault_unpin hp hr v (hmap h)
  | optimize =>
      have hcounted := hp.count s.tableau (fun c => { c with optimize := c.optimize + 1 })
        hs.tableau
      have houtcome : s.optimize.1 = .error fault := hmap h
      rw [Solver.optimize] at houtcome
      split at houtcome
      · exact absurd houtcome (by simp)
      · rename_i heq
        exact hminimise _ _ hcounted ((congrArg Prod.fst heq).trans houtcome)
  | reset => exact absurd h (by simp [perform])
  | resetCounters => exact absurd h (by simp [perform])

end Keeping

end Solver

end LexSimplex
