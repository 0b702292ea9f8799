import LexSimplex.Proofs.Alike.Tableaux

/-!
# Constraints in tableaux that work alike

A request is drafted, placed and refused alike in alike tableaux, and a constraint is removed
alike: the draft takes the same row slot, the same new variables and the same signs, and the
choices on the way are the same.

## Main results

* `Tableau.Alike.draft`, `Tableau.Alike.place`: a request on its way into a tableau.
* `Tableau.Alike.insert`, `Tableau.Alike.remove`: insertion and removal.
-/

namespace LexSimplex

namespace Tableau

variable {K Q β : Type} [Coefficient K] {t u : Tableau K Q}

namespace Alike

/-! ### Drafts -/

/-- A request reads the same in terms of alike tableaux. -/
theorem express_eq [Precision K Q] (h : t.Alike u) : t.express = u.express := by
  have habsorb : t.absorb = u.absorb := by
    funext e term
    rw [absorb, absorb, h.vars.get?_eq, h.definition?_eq]
  funext e
  rw [express, express, habsorb]

section Drafts

variable [Scalar Q]

/-- Adding an error variable has alike results. -/
theorem addError (h : t.Alike u) (s : Strength) :
    AlikeResults (t.addError s) (u.addError s) := by
  obtain ⟨v, t', u', ht, hu, hnew⟩ := (h.addVariable .error none).exists_eq
  rw [Tableau.addError, Tableau.addError, ht, hu]
  exact ⟨rfl, withGoal (f := fun g => g.addTerm v (TierVector.unit s) 1) (hnew.modifyVar v _)⟩

/-- An equation under construction with its tag: the same in both, and the tableaux alike. -/
abbrev AlikeStates (x y : LinExpr K × Tag × Tableau K Q) : Prop :=
  x.1 = y.1 ∧ AlikeResults x.2 y.2

/-- Closing an inequality leads to alike states. -/
theorem closeInequality (h : t.Alike u) (e : LinExpr K) (s : Strength) (c : K) :
    AlikeStates (t.closeInequality e s c) (u.closeInequality e s c) := by
  obtain ⟨slack, t', u', ht, hu, hslack⟩ := (h.addVariable .slack none).exists_eq
  rw [Tableau.closeInequality, Tableau.closeInequality, ht, hu]
  dsimp only
  by_cases hs : s.hard
  · rw [if_pos hs, if_pos hs]
    exact ⟨rfl, rfl, hslack⟩
  · obtain ⟨error, t', u', ht, hu, herror⟩ := (hslack.addError s).exists_eq
    rw [if_neg hs, if_neg hs, ht, hu]
    exact ⟨rfl, rfl, herror⟩

/-- Closing an equation leads to alike states. -/
theorem closeEquality (h : t.Alike u) (e : LinExpr K) (s : Strength) :
    AlikeStates (t.closeEquality e s) (u.closeEquality e s) := by
  rw [Tableau.closeEquality, Tableau.closeEquality]
  by_cases hs : s.hard
  · obtain ⟨marker, t', u', ht, hu, hmarker⟩ := (h.addVariable .constant none).exists_eq
    rw [if_pos hs, if_pos hs, ht, hu]
    exact ⟨rfl, rfl, hmarker⟩
  · obtain ⟨above, t', u', ht, hu, habove⟩ := (h.addError s).exists_eq
    rw [if_neg hs, if_neg hs, ht, hu]
    dsimp only
    obtain ⟨below, t', u', ht, hu, hbelow⟩ := (habove.addError s).exists_eq
    rw [ht, hu]
    exact ⟨rfl, rfl, hbelow⟩

/-- Closing a relation leads to alike states. -/
theorem close (h : t.Alike u) (e : LinExpr K) (s : Strength) (relation : Relation) :
    AlikeStates (t.close e s relation) (u.close e s relation) := by
  cases relation with
  | eq => exact h.closeEquality e s
  | le => exact h.closeInequality e s 1
  | ge => exact h.closeInequality e s (-1)

/-- Adding the further error variables leads to alike states. -/
theorem foldl_addExtra {x y : LinExpr K × Tag × Tableau K Q} (h : AlikeStates x y)
    (errors : List (K × Strength)) :
    AlikeStates (errors.foldl addExtra x) (errors.foldl addExtra y) := by
  induction errors generalizing x y with
  | nil => exact h
  | cons error errors ih =>
      obtain ⟨e, tag, t⟩ := x
      obtain ⟨e', tag', u⟩ := y
      obtain ⟨rfl, rfl, htu⟩ := h
      refine ih ?_
      obtain ⟨v, t', u', ht, hu, hv⟩ := (htu.addError error.2).exists_eq
      rw [addExtra, addExtra, ht, hu]
      exact ⟨rfl, rfl, hv⟩

variable [Precision K Q]

/-- Drafting a request has alike results: the same draft. -/
theorem draft (h : t.Alike u) (request : Request K) (relation : Relation) :
    AlikeResults (t.draft request relation) (u.draft request relation) := by
  obtain ⟨row, t', u', ht, hu, hrow⟩ := h.acquireRow.exists_eq
  have hclosed := foldl_addExtra
    (hrow.close (u.express request.expr) request.strength relation) request.errors
  rw [Tableau.draft, Tableau.draft, pinnedIn, pinnedIn, valuesIn, valuesIn, h.vars.get?_eq,
    h.express_eq, ht, hu]
  dsimp only
  obtain ⟨he, htag, htu⟩ := hclosed
  rw [he, htag]
  exact ⟨rfl, htu⟩

end Drafts

/-! ### Insertion -/

section Insert

/-- A draft is solved for the same variable. -/
theorem subject?_eq (h : t.Alike u) : t.subject? = u.subject? :=
  funext fun d => by rw [subject?, subject?, h.kind_eq]

/-- Retiring an artificial variable leaves alike tableaux alike. -/
theorem retire (h : t.Alike u) (artificial marker : VarId) (reached : Bool) :
    (t.retire artificial marker reached).Alike (u.retire artificial marker reached) := by
  rw [Tableau.retire, Tableau.retire, h.definition?_eq, h.successor?_eq]
  cases u.definition? artificial with
  | none => exact h
  | some r =>
      dsimp only
      cases if reached then u.successor? r.expr marker else none with
      | none => exact h.dropRow r
      | some v => exact h.redefine r v

/-- A redundant draft is placed with alike results. -/
theorem placeRedundant (h : t.Alike u) (d : Draft K) :
    AlikeResults (t.placeRedundant d) (u.placeRedundant d) := by
  rw [Tableau.placeRedundant, Tableau.placeRedundant]
  by_cases hz : Coefficient.negligible d.expr.constant
  · by_cases hm : d.expr.contains d.constraint.tag.marker
    · simp only [hz, hm, if_true]
      exact ⟨rfl, h.attach _⟩
    · simp only [hz, hm, if_true, Bool.false_eq_true, if_false]
      exact ⟨rfl, h.releaseRow d.row⟩
  · simp only [hz, Bool.false_eq_true, if_false]
    exact ⟨rfl, h.releaseRow d.row⟩

/-- A refusal is put into the same words. -/
theorem refuse (h : t.Alike u) (request : Request K) (relation : Relation) :
    AlikeResults (t.refuse request relation) (u.refuse request relation) := by
  rw [Tableau.refuse, Tableau.refuse, describe, describe, labelled, labelled, h.label_eq]
  refine ⟨rfl, ?_⟩
  dsimp only
  exact h.count _ _

variable [Scalar Q]

/-- A draft that is placed by phase one is placed with alike results. -/
theorem placeByArtificial (h : t.Alike u) (d : Draft K) :
    AlikeResults (t.placeByArtificial d) (u.placeByArtificial d) := by
  have hcount := h.count
    (fun c => { c with artificialConstraints := c.artificialConstraints + 1 })
    fun c => { c with artificialConstraints := c.artificialConstraints + 1 }
  obtain ⟨a, t', u', ht, hu, hadded⟩ := (hcount.addVariable .slack none).exists_eq
  rw [Tableau.placeByArtificial, Tableau.placeByArtificial, ht, hu]
  dsimp only
  have hmeasured := (hadded.withPhaseOne (some (Goal.ofExpr d.expr .fixed))).attach
    ⟨d.row, a, d.expr⟩
  obtain ⟨outcome, t', u', ht, hu, hleast⟩ := (hmeasured.minimise .phaseOne).exists_eq
  rw [ht, hu]
  dsimp only
  rw [isMet, isMet, hleast.objective_eq]
  exact ⟨rfl, ((hleast.withPhaseOne none).retire a d.constraint.tag.marker _).discard a⟩

/-- A draft goes the same way in alike tableaux. -/
theorem place (h : t.Alike u) (d : Draft K) : AlikeResults (t.place d) (u.place d) := by
  rw [Tableau.place, Tableau.place, h.subject?_eq, h.kind_eq]
  cases u.subject? d with
  | some v =>
      refine ⟨rfl, ?_⟩
      dsimp only
      exact ((h.substitute v _).attach _).count _ _
  | none =>
      by_cases hall : d.expr.vars.all fun v => u.kind v = .constant
      · obtain ⟨consistent, t', u', ht, hu, hplaced⟩ := (h.placeRedundant d).exists_eq
        simp only [hall, if_true, ht, hu]
        exact ⟨rfl, hplaced⟩
      · simp only [hall, Bool.false_eq_true, if_false]
        exact h.placeByArtificial d

/-- **Insertion** goes alike in alike tableaux. -/
theorem insert [Precision K Q] (h : t.Alike u) (request : Request K) (relation : Relation) :
    AlikeResults (t.insert request relation) (u.insert request relation) := by
  rw [Tableau.insert, Tableau.insert, h.vars.isLive_eq]
  cases request.expr.vars.find? fun v => !u.vars.isLive v with
  | some v => exact ⟨rfl, h⟩
  | none =>
      obtain ⟨d, t', u', ht, hu, hdraft⟩ := (h.draft request relation).exists_eq
      dsimp only
      rw [ht, hu]
      dsimp only
      obtain ⟨outcome, t', u', ht, hu, hplaced⟩ := (hdraft.place d).exists_eq
      rw [ht, hu]
      cases outcome with
      | error fault => exact ⟨rfl, hplaced⟩
      | ok consistent =>
          cases consistent with
          | true =>
              obtain ⟨id, t', u', ht, hu, hentered⟩ := (hplaced.register d.constraint).exists_eq
              simp only [ht, hu]
              exact ⟨rfl, hentered⟩
          | false =>
              obtain ⟨fault, t', u', ht, hu, hrefused⟩ :=
                ((hplaced.foldl_discard d.constraint.tag.vars).refuse request relation).exists_eq
              simp only [ht, hu]
              exact ⟨rfl, hrefused⟩

end Insert

/-! ### Removal -/

/-- Taking the penalties of variables back leaves alike tableaux alike. -/
theorem foldl_unpenalise (h : t.Alike u) (vs : List VarId) :
    (vs.foldl unpenalise t).Alike (vs.foldl unpenalise u) := by
  induction vs generalizing t u with
  | nil => exact h
  | cons v vs ih =>
      refine ih ?_
      rw [unpenalise, unpenalise, h.vars.get?_eq, h.definition?_eq]
      cases u.vars.get? v with
      | none => exact h
      | some x =>
          by_cases hk : x.kind = .error
          · simp only [hk, if_true]
            cases u.definition? v with
            | none => exact withGoal (f := fun g => g.addTerm v x.vector (-1)) h
            | some r => exact withGoal (f := fun g => g.addScaled r.expr x.vector (-1)) h
          · simp only [hk, if_false]
            exact h

/-- A marker leaves through the same row. -/
theorem markerRow?_eq (h : t.Alike u) : t.markerRow? = u.markerRow? := by
  have hgrowth : t.growthBlocker? = u.growthBlocker? := by
    funext marker r
    rw [growthBlocker?, growthBlocker?, h.kind_eq]
  have hriser : t.riser? = u.riser? := by
    funext marker r
    rw [riser?, riser?, h.kind_eq]
  funext marker
  rw [markerRow?, markerRow?, marked, marked, h.referring_eq, h.kind_eq, hgrowth, hriser]

/-- Taking an equation out leaves alike tableaux alike. -/
theorem removeEquation (h : t.Alike u) (marker : VarId) :
    (t.removeEquation marker).Alike (u.removeEquation marker) := by
  rw [Tableau.removeEquation, Tableau.removeEquation, h.definition?_eq, h.markerRow?_eq, h.row?_eq]
  cases u.definition? marker with
  | some r => exact h.dropRow r
  | none =>
      dsimp only
      cases (u.markerRow? marker).bind u.row? with
      | none => exact h
      | some r => exact ((h.detach r).substitute marker _).releaseRow r.id

/-- Withdrawing a constraint leaves alike tableaux alike. -/
theorem withdraw (h : t.Alike u) (id : ConstraintId) (tag : Tag) :
    (t.withdraw id tag).Alike (u.withdraw id tag) := by
  have herased : Alike { t with constraints := t.constraints.erase id }
      { u with constraints := u.constraints.erase id } :=
    { h with constraints := congrArg (Assoc.erase · id) h.constraints }
  exact (((herased.foldl_modifyVar Variable.releaseFold tag.folded).foldl_unpenalise
    tag.vars).removeEquation tag.marker).foldl_discard tag.vars

/-- **Removal** goes alike in alike tableaux. -/
theorem remove (h : t.Alike u) (id : ConstraintId) :
    AlikeResults (t.remove id) (u.remove id) := by
  rw [Tableau.remove, Tableau.remove, h.constraints]
  cases u.constraints.get? id with
  | none => exact ⟨rfl, h⟩
  | some c => exact ⟨rfl, h.withdraw id c.tag⟩

end Alike

end Tableau

end LexSimplex
