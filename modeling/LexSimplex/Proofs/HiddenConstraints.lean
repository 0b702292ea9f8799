import LexSimplex.Arithmetic.Binary
import LexSimplex.Proofs.Moves

/-!
# Removals and hidden constraints

A removal takes its constraint out first. Then it gives up the holds that nothing needs any more,
each with the hidden constraint that holds the variable. No reply tells a caller the handle of a
hidden constraint, but a caller who passes it in anyway takes the constraint out, and the hold stays
noted. The removal that should give up such a hold finds nothing to take out, and reports a failure
though its own constraint is gone.

Until handles come round that is the only way in which a removal fails halfway: as long as nobody
removes a hidden constraint, every one of them is in place, and removals succeed exactly for the
constraints that are there. Nothing here depends on the arithmetic.

## Main definitions

* `Solver.Anchored`: every hidden constraint is there.
* `Solver.GivesUp`: a hold is given up with a removal.
* `Session.Discreet`: a command removes no hidden constraint.

## Main results

* `Session.Run.anchored`: as long as no hidden constraint is removed and handles have not come
  round, all of them are there.
* `Solver.Reachable.remove_outcome`: what a removal comes to.
-/

namespace LexSimplex

variable {K Q : Type}

/-- A solver has a constraint if it is listed. -/
theorem Solver.hasConstraint_iff {s : Solver K Q} {id : ConstraintId} :
    s.hasConstraint id ↔ ∃ c, s.tableau.constraints.get? id = some c :=
  Option.isSome_iff_exists

variable [Coefficient K]

/-- After a constraint was taken out the others are there. -/
theorem Tableau.WellFormed.contains_remove {t : Tableau K Q} (h : t.WellFormed)
    (id id' : ConstraintId) : (t.remove id').2.constraints.contains id ↔
      id ≠ id' ∧ t.constraints.contains id := by
  rw [Assoc.contains, Assoc.contains]
  refine remove_cases (t := t) (p := fun result =>
    (result.2.constraints.get? id).isSome ↔ id ≠ id' ∧ (t.constraints.get? id).isSome)
    (fun hnone => ?_) fun c hc => ?_
  · refine ⟨fun hid => ⟨?_, hid⟩, And.right⟩
    rintro rfl
    rw [hnone] at hid
    exact absurd hid (by simp)
  · rw [(h.withdrawn hc).constraints_eq, Assoc.get?_erase]
    by_cases hid : id = id'
    · simp [hid]
    · simp [hid]

namespace Solver

variable {s s' : Solver K Q} {v w : VarId} {id : ConstraintId} {c : Constraint K}

/-! ### Giving up holds -/

/-- Giving up a hold leaves the notes fitting. -/
theorem Annotated.giveUp (h : s.Annotated) (v : VarId) (id : ConstraintId) :
    ({ s with tableau := (s.tableau.remove id).2, holds := s.holds.erase v } :
      Solver K Q).Annotated := by
  refine Tableau.remove_cases (t := s.tableau) (p := fun result =>
    ({ s with tableau := result.2, holds := s.holds.erase v } : Solver K Q).Annotated)
    (fun _ => h.drop v) fun c hc => ?_
  exact (h.drop v).withdraw hc s.status

/-- As long as handles have not come round, giving up holds **succeeds** exactly if their
constraints are all there, and it fails at one that is not: each has a constraint of its own, so
none goes with another. -/
theorem Annotated.releaseAll_outcome (h : s.Annotated) (hroom : s.tableau.Unwrapped)
    {holds : List (VarId × Hold Q)} (hnodup : (holds.map Prod.fst).Nodup)
    (hholds : ∀ e ∈ holds, s.holds.get? e.1 = some e.2) :
    ((s.releaseAll holds).1 = .ok () ↔ ∀ e ∈ holds, s.hasConstraint e.2.constraint) ∧
      ∀ fault, (s.releaseAll holds).1 = .error fault →
        ∃ e ∈ holds, s.hasConstraint e.2.constraint = false ∧
          fault = .unknownConstraint e.2.constraint := by
  induction holds generalizing s with
  | nil => exact ⟨by simp [releaseAll], fun fault hfault => absurd hfault (by simp [releaseAll])⟩
  | cons e rest ih =>
      obtain ⟨hfresh, hnodup⟩ := List.nodup_cons.mp hnodup
      have hget := hholds e List.mem_cons_self
      rw [releaseAll]
      dsimp only
      cases hc : s.tableau.constraints.get? e.2.constraint with
      | none =>
          have hnot : s.hasConstraint e.2.constraint = false := by
            rw [hasConstraint, Assoc.contains, hc]
            rfl
          rw [Tableau.remove, hc]
          dsimp only
          refine ⟨⟨fun hok => absurd hok (by simp), fun hall => ?_⟩, fun fault hfault => ?_⟩
          · rw [hall e List.mem_cons_self] at hnot
            exact absurd hnot (by simp)
          · exact ⟨e, List.mem_cons_self, hnot, (Except.error.inj hfault).symm⟩
      | some c =>
          have hthere : s.hasConstraint e.2.constraint := hasConstraint_iff.mpr ⟨c, hc⟩
          have hothers : ∀ e' ∈ rest,
              ({ s with
                tableau := (s.tableau.remove e.2.constraint).2
                holds := s.holds.erase e.1 } : Solver K Q).hasConstraint e'.2.constraint ↔
                s.hasConstraint e'.2.constraint := by
            intro e' he'
            refine (h.wellFormed.contains_remove _ e.2.constraint).trans
              (and_iff_right fun hid => hfresh ?_)
            have hget' := hholds e' (List.mem_cons_of_mem _ he')
            have hsame := h.unique hroom e'.1 e.1 _ (.inr ⟨_, hget', hid⟩) (.inr ⟨_, hget, rfl⟩)
            exact hsame ▸ List.mem_map_of_mem he'
          have hroom' : (s.tableau.remove e.2.constraint).2.Unwrapped :=
            hroom.of_le (Nat.le_of_eq (Tableau.entered_remove s.tableau e.2.constraint))
          obtain ⟨hiff, herror⟩ := ih (h.giveUp e.1 e.2.constraint) hroom' hnodup fun e' he' => by
            have hne : e'.1 ≠ e.1 := fun heq => hfresh (heq ▸ List.mem_map_of_mem he')
            rw [Assoc.get?_erase, if_neg hne, hholds e' (List.mem_cons_of_mem _ he')]
          have hok : (s.tableau.remove e.2.constraint).1 = .ok () := by
            rw [Tableau.remove, hc]
          rw [hok]
          dsimp only
          refine ⟨hiff.trans ?_, fun fault hfault => ?_⟩
          · rw [List.forall_mem_cons, and_iff_right hthere]
            exact forall₂_congr fun e' he' => hothers e' he'
          · obtain ⟨e', he', hnot, hfault⟩ := herror fault hfault
            refine ⟨e', List.mem_cons_of_mem _ he', ?_, hfault⟩
            rw [← Bool.not_eq_true, ← hothers e' he', hnot]
            simp

/-- Giving up holds enters no constraint. -/
theorem hasConstraint_of_releaseAll {holds : List (VarId × Hold Q)} (hwell : s.tableau.WellFormed)
    (hid : (s.releaseAll holds).2.hasConstraint id) : s.hasConstraint id := by
  induction holds generalizing s with
  | nil => exact hid
  | cons e rest ih =>
      have hstep := hwell.contains_remove id e.2.constraint
      rw [releaseAll] at hid
      dsimp only at hid
      split at hid
      · exact (hstep.mp hid).2
      · have hwell' : ({ s with
            tableau := (s.tableau.remove e.2.constraint).2
            holds := s.holds.erase e.1 } : Solver K Q).tableau.WellFormed := hwell.remove _
        exact (hstep.mp (ih hwell' hid)).2

/-! ### Hidden constraints in place -/

/-- A solver is **anchored** if every hidden constraint is there. -/
def Anchored (s : Solver K Q) : Prop :=
  ∀ id, s.IsHidden id → s.hasConstraint id

/-- After a reset nothing is hidden. -/
theorem anchored_reset [Scalar Q] (s : Solver K Q) : s.reset.Anchored := by
  intro id hid
  rcases hid with ⟨v, hpin⟩ | ⟨v, hold, hhold, -⟩
  · exact absurd hpin (by simp [reset])
  · exact absurd hhold (by simp [reset])

variable [Scalar Q] [Precision K Q] {a : Act K Q}

/-- As long as handles have not come round, a move that takes out no hidden constraint keeps all of
them there. -/
theorem Anchored.move (h : s.Anchored) (hs : s.Annotated) (hmove : s.Move a s')
    (hroom : s'.tableau.Unwrapped) (hremove : ∀ id, a = .remove id → ¬s.IsHidden id) :
    s'.Anchored := by
  intro id hid
  obtain ⟨v, hv⟩ := isHidden_iff.mp hid
  rcases hmove.hides_or hv with hv | ⟨hthere, -⟩
  · have hhidden := isHidden_iff.mpr ⟨v, hv⟩
    obtain ⟨c, hc⟩ := hasConstraint_iff.mp (h id hhidden)
    rcases hmove.get?_constraints hs hroom hc with hc | ha
    · exact hasConstraint_iff.mpr ⟨c, hc⟩
    · exact absurd hhidden (hremove id ha)
  · exact hasConstraint_iff.mpr hthere

/-- As long as handles have not come round, a command that removes nothing hidden keeps what is
hidden listed. -/
theorem Anchored.perform (h : s.tableau.Unwrapped → s.Anchored) (hs : s.Annotated)
    {command : Command K Q}
    (hdiscreet : s.tableau.Unwrapped → ∀ id ∈ command.removed?, ¬s.IsHidden id) :
    (s.perform command).2.tableau.Unwrapped → (s.perform command).2.Anchored := by
  refine hs.path_perform (p := fun s' => s'.tableau.Unwrapped → s'.Anchored) command
    (fun kind stem _ hroom => ?_) (fun _ _ => anchored_reset s) fun hpath => ?_
  · have hnext := s.tableau.entered_addVariable kind (if stem = "" then none else some stem)
    have hcons := s.tableau.constraints_addVariable kind (if stem = "" then none else some stem)
    intro id hid
    exact (congrArg (Assoc.contains · id) hcons).trans
      (h (hroom.of_le (Nat.le_of_eq hnext.symm)) id hid)
  · refine (hpath.keeps (p := fun s => (s.tableau.Unwrapped → s.Anchored) ∧ s.Annotated)
      (fun s₁ a s₂ hp ha hmove => ⟨fun hroom => ?_, hp.2.move hmove⟩) ⟨h, hs⟩).1
    have hbefore := hroom.of_le (hmove.entered_le hp.2)
    refine (hp.1 hbefore).move hp.2 hmove hroom fun id hid => ?_
    rw [hid] at ha
    rcases ha with ⟨hmem, rfl⟩ | hnot
    · exact hdiscreet hbefore id hmem
    · exact (hnot hbefore).1

end Solver

/-- A command is **discreet** if it does not remove a hidden constraint. -/
def Session.Discreet [Scalar Q] [Precision K Q] (s : Session K Q) (c : Command K Q) : Prop :=
  ∀ id ∈ c.removed?, ¬s.solver.IsHidden id

instance [Scalar Q] [Precision K Q] (s : Session K Q) (c : Command K Q) :
    Decidable (s.Discreet c) :=
  inferInstanceAs (Decidable (∀ id ∈ c.removed?, ¬s.solver.IsHidden id))

/-- As long as nobody removes a hidden constraint and handles have not come round, all of them are
**in place**. What was removed before a reset does not matter. -/
theorem Session.Run.anchored [Scalar Q] [Precision K Q] {s : Session K Q}
    (h : s.Run fun s c => s.solver.tableau.Unwrapped → s.Discreet c) :
    s.solver.tableau.Unwrapped → s.solver.Anchored := by
  induction h with
  | start settings =>
      intro _ id hid
      rcases hid with ⟨v, hpin⟩ | ⟨v, hold, hhold, -⟩
      · exact absurd hpin (by simp [Session.start, Solver.empty])
      · exact absurd hhold (by simp [Session.start, Solver.empty])
  | step hrun hc ih => exact Solver.Anchored.perform ih hrun.reachable.annotated hc

/-! ### Removals -/

namespace Solver

variable {s : Solver K Q} {id : ConstraintId}

/-- A removal **gives up** a hold if the variable is idle without the constraint. -/
def GivesUp (s : Solver K Q) (id : ConstraintId) (v : VarId) (hold : Hold Q) : Prop :=
  s.holds.get? v = some hold ∧ ({ s with tableau := (s.tableau.remove id).2 } : Solver K Q).isIdle v

/-- A removal of a constraint that is there takes it out. As long as handles have not come round, it
**succeeds** exactly if the constraints of the holds that it gives up are there, and it fails at one
that is not. -/
theorem Annotated.remove_of_hasConstraint (h : s.Annotated) (hid : s.hasConstraint id) :
    (s.remove id).2.hasConstraint id = false ∧ (s.tableau.Unwrapped →
      ((s.remove id).1 = .ok () ↔ ∀ v hold, s.GivesUp id v hold →
        hold.constraint ≠ id ∧ s.hasConstraint hold.constraint) ∧
      ∀ fault, (s.remove id).1 = .error fault → ∃ v hold, s.GivesUp id v hold ∧
        ¬(hold.constraint ≠ id ∧ s.hasConstraint hold.constraint) ∧
          fault = .unknownConstraint hold.constraint) := by
  obtain ⟨c, hc⟩ := hasConstraint_iff.mp hid
  have htableau : (s.tableau.remove id).2 = s.tableau.withdraw id c.tag := by
    rw [Tableau.remove, hc]
  set s₁ : Solver K Q := { s with tableau := s.tableau.withdraw id c.tag, status := .building }
    with hs₁
  have h₁ : s₁.Annotated := h.withdraw hc .building
  have hremove : s.remove id = s₁.releaseIdle := by
    rw [remove, Tableau.remove, hc]
  have hgivesUp : ∀ e, e ∈ s.holds.filter (fun e => s₁.isIdle e.1) ↔ s.GivesUp id e.1 e.2 := by
    intro e
    rw [List.mem_filter, GivesUp, Assoc.get?_eq_some_iff h.nodup_holds, htableau]
    rfl
  have hthere : ∀ id', s₁.hasConstraint id' ↔ id' ≠ id ∧ s.hasConstraint id' := by
    intro id'
    have hcontains := h.wellFormed.contains_remove id' id
    rwa [htableau] at hcontains
  have hnodup : ((s.holds.filter fun e => s₁.isIdle e.1).map Prod.fst).Nodup :=
    (List.filter_sublist.map Prod.fst).nodup h.nodup_holds
  rw [hremove, releaseIdle]
  refine ⟨?_, fun hroom => ?_⟩
  · rw [← Bool.not_eq_true]
    intro hleft
    exact ((hthere id).mp (hasConstraint_of_releaseAll h₁.wellFormed hleft)).1 rfl
  have hroom₁ : s₁.tableau.Unwrapped :=
    hroom.of_le (Nat.le_of_eq (Tableau.entered_withdraw s.tableau id c.tag))
  obtain ⟨hiff, herror⟩ := h₁.releaseAll_outcome hroom₁ hnodup fun e he =>
    (((hgivesUp e).mp he).1 : s.holds.get? e.1 = some e.2)
  refine ⟨hiff.trans ⟨fun hall v hold hgives => ?_, fun hall e he => ?_⟩, fun fault hfault => ?_⟩
  · exact (hthere _).mp (hall (v, hold) ((hgivesUp _).mpr hgives))
  · exact (hthere _).mpr (hall e.1 e.2 ((hgivesUp e).mp he))
  · obtain ⟨e, he, hnot, hfault⟩ := herror fault hfault
    refine ⟨e.1, e.2, (hgivesUp e).mp he, fun hboth => ?_, hfault⟩
    rw [(hthere _).mpr hboth] at hnot
    exact absurd hnot (by simp)

/-- **Removals.** A handle that is not that of a constraint is unknown, and nothing happens. One
that is takes its constraint out. As long as fewer constraints were entered than there are handles,
the removal then succeeds exactly if the constraints of the holds that it gives up are there;
otherwise the failure is about one of theirs. That does not happen to a caller who removes no hidden
constraint. -/
theorem Reachable.remove_outcome [Scalar Q] [Precision K Q] (h : s.Reachable) (id : ConstraintId) :
    (s.hasConstraint id = false → s.remove id = (.error (.unknownConstraint id), s)) ∧
    (s.hasConstraint id → (s.remove id).2.hasConstraint id = false ∧ (s.tableau.Unwrapped →
      ((s.remove id).1 = .ok () ↔ ∀ v hold, s.GivesUp id v hold →
        hold.constraint ≠ id ∧ s.hasConstraint hold.constraint) ∧
      ∀ fault, (s.remove id).1 = .error fault → ∃ v hold, s.GivesUp id v hold ∧
        ¬(hold.constraint ≠ id ∧ s.hasConstraint hold.constraint) ∧
          fault = .unknownConstraint hold.constraint)) ∧
    ∀ r : Session K Q, r.Run Session.Discreet → r.solver.tableau.Unwrapped →
      ∀ id, ¬r.solver.IsHidden id →
        ((r.solver.remove id).1 = .ok () ↔ r.solver.hasConstraint id) := by
  have hunknown : ∀ (s : Solver K Q) (id : ConstraintId), s.hasConstraint id = false →
      s.remove id = (.error (.unknownConstraint id), s) := by
    intro s id hnot
    have hnone : s.tableau.constraints.get? id = none :=
      Option.isSome_eq_false_iff.mp hnot |> Option.isNone_iff_eq_none.mp
    rw [remove, Tableau.remove, hnone]
  refine ⟨hunknown s id, h.annotated.remove_of_hasConstraint, fun r hr hroom id hplain => ?_⟩
  have hanchored : r.solver.tableau.Unwrapped → r.solver.Anchored :=
    (hr.mono fun s _ hc (_ : s.solver.tableau.Unwrapped) => hc).anchored
  constructor
  · intro hok
    by_contra hnot
    rw [hunknown r.solver id (by simpa using hnot)] at hok
    exact absurd hok (by simp)
  · intro hthere
    refine ((hr.reachable.annotated.remove_of_hasConstraint hthere).2 hroom).1.mpr
      fun v hold hgives => ?_
    have hhidden : r.solver.IsHidden hold.constraint := .inr ⟨v, hold, hgives.1, rfl⟩
    exact ⟨fun heq => hplain (heq ▸ hhidden), hanchored hroom _ hhidden⟩

/-- A solver in which a constraint took in the value of a pinned variable, which was then unpinned
and is held, and in which the hidden constraint that holds it was removed. -/
def stranded : Solver Float Float32 :=
  (empty {}).run
    [.declare .external "", .declare .external "",
      .pin ⟨0⟩ 40, .add (Layout.offset ⟨1⟩ ⟨0⟩ (10 : Float32)) .eq,
      .unpin ⟨0⟩, .remove ⟨1⟩]

/-- A removal that takes its constraint out and fails, as the hold that it gives up has lost its
constraint. -/
theorem remove_outcome_of_stranded :
    stranded.Reachable ∧
      ((stranded.hasConstraint ⟨0⟩ = false →
          stranded.remove ⟨0⟩ = (.error (.unknownConstraint ⟨0⟩), stranded)) ∧
        (stranded.hasConstraint ⟨0⟩ → (stranded.remove ⟨0⟩).2.hasConstraint ⟨0⟩ = false ∧
          (stranded.tableau.Unwrapped →
            ((stranded.remove ⟨0⟩).1 = .ok () ↔ ∀ v hold, stranded.GivesUp ⟨0⟩ v hold →
              hold.constraint ≠ ⟨0⟩ ∧ stranded.hasConstraint hold.constraint) ∧
            ∀ fault, (stranded.remove ⟨0⟩).1 = .error fault →
              ∃ v hold, stranded.GivesUp ⟨0⟩ v hold ∧
                ¬(hold.constraint ≠ ⟨0⟩ ∧ stranded.hasConstraint hold.constraint) ∧
                  fault = .unknownConstraint hold.constraint)) ∧
        ∀ r : Session Float Float32, r.Run Session.Discreet → r.solver.tableau.Unwrapped →
          ∀ id, ¬r.solver.IsHidden id →
            ((r.solver.remove id).1 = .ok () ↔ r.solver.hasConstraint id)) ∧
      stranded.tableau.Unwrapped ∧ stranded.hasConstraint ⟨0⟩ ∧
      (stranded.remove ⟨0⟩).2.hasConstraint ⟨0⟩ = false ∧
      (stranded.remove ⟨0⟩).1 = .error (.unknownConstraint ⟨1⟩) := by
  have hreachable : stranded.Reachable := ⟨{}, _, rfl⟩
  exact ⟨hreachable, hreachable.remove_outcome ⟨0⟩, by decide +kernel, by decide +kernel,
    by decide +kernel, by decide +kernel⟩

end Solver

end LexSimplex
