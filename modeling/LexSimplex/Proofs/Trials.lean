import LexSimplex.Proofs.Alike.Constraints
import LexSimplex.Proofs.RowCounts

/-!
# Trials

A draft that can define none of its variables at once is **tried**: an artificial variable becomes
basic in its row, and is driven towards zero. What an insertion leaves where it fails is what the
trial came to, without the variables that are discarded. The trial itself is not taken back: the
variables that were exchanged in it stay exchanged.

Nothing here depends on the arithmetic.

## Main definitions

* `Tableau.Tried`, `Tableau.trial`: whether a draft is tried, and what the trial comes to.
* `Tableau.Failed`: what is left where an insertion fails.

## Main results

* `Tableau.Linked.core_foldl_discard`, `Tableau.Linked.rowValue_foldl_discard`: what is left where
  variables were discarded.
* `Tableau.Linked.failed`: what an insertion leaves where it fails.
-/

namespace LexSimplex

namespace Tableau

variable {K Q : Type} {t u : Tableau K Q} {d : Draft K} {v : VarId}

/-! ### What discarding leaves -/

/-- Terms are taken out of the goal, and its constant stays. -/
theorem constant_goal_foldl_discard (vs : List VarId) (t : Tableau K Q) :
    (vs.foldl discard t).goal.constant = t.goal.constant := by
  induction vs generalizing t with
  | nil => rfl
  | cons v vs ih =>
      refine (ih _).trans ?_
      rw [discard, purge]
      cases t.definition? v <;> rfl

variable [Coefficient K]

/-- Variables that are discarded are not live, and the others are what they were but for their
links. -/
theorem Linked.core_foldl_discard (h : t.Linked none) (vs : List VarId) (v : VarId) :
    ((vs.foldl Tableau.discard t).vars.get? v).map Variable.core =
      if v ∈ vs then none else (t.vars.get? v).map Variable.core := by
  induction vs generalizing t with
  | nil => simp
  | cons w vs ih =>
      have hget : (t.discard w).vars.get? v = if v = w then none else (t.purge w).vars.get? v :=
        VariablePool.get?_release _ w v
      rw [List.foldl_cons, ih (h.discard w), hget]
      by_cases hv : v = w
      · simp [hv]
      · simp [hv, (h.sameVars_purge w).core_eq v]

/-- Where variables are discarded, the others stand where they stood. -/
theorem Linked.rowValue_foldl_discard (h : t.Linked none) {vs : List VarId} (hv : v ∉ vs) :
    (vs.foldl Tableau.discard t).rowValue v = t.rowValue v := by
  induction vs generalizing t with
  | nil => rfl
  | cons w vs ih =>
      rw [List.mem_cons, not_or] at hv
      obtain ⟨hvw, hvs⟩ := hv
      have hdiscard := h.discard w
      rw [List.foldl_cons, ih hdiscard hvs]
      by_cases hb : t.IsBasic v
      · obtain ⟨r, hr, rfl⟩ := hb
        have hleft := (h.mem_rows_discard w _).mpr ⟨r, hr, hvw, rfl⟩
        rw [h.rowValue_basic hr]
        exact hdiscard.rowValue_basic (r := { r with expr := r.expr.without w }) hleft
      · rw [h.rowValue_of_not_isBasic hb, hdiscard.rowValue_of_not_isBasic fun hd =>
          hb ((h.isBasic_discard w v).mp hd).1]

/-! ### Trials -/

section Trials

/-- A trial that fails says that pivoting failed. -/
theorem isInternal_of_minimise {o : Objective} {fault : Fault}
    (h : (t.minimise o).1 = .error fault) : fault.isInternal := by
  suffices hdescend : ∀ limit fuel (t : Tableau K Q), (descend o limit fuel t).1 = .error fault →
      fault.isInternal from hdescend _ _ t h
  intro limit fuel
  induction fuel with
  | zero =>
      intro t ht
      rw [descend] at ht
      split at ht
      · exact absurd ht (by simp)
      · obtain rfl := Except.error.inj ht
        rfl
  | succ fuel ih =>
      intro t ht
      rw [descend] at ht
      split at ht
      · exact absurd ht (by simp)
      · dsimp only at ht
        split at ht
        · obtain rfl := Except.error.inj ht
          rfl
        · exact ih _ ht

variable [Scalar Q]

/-- A draft is **tried** if it can define no variable at once and speaks of more than markers. -/
def Tried (t : Tableau K Q) (d : Draft K) : Prop :=
  t.subject? d = none ∧ ∃ w ∈ d.expr.vars, t.kind w ≠ .constant

instance (t : Tableau K Q) (d : Draft K) : Decidable (t.Tried d) :=
  inferInstanceAs (Decidable (t.subject? d = none ∧ ∃ w ∈ d.expr.vars, t.kind w ≠ .constant))

/-- The **trial** of a draft: how far its artificial variable can be driven down. -/
def trial (t : Tableau K Q) (d : Draft K) : Except Fault Unit × Tableau K Q :=
  (t.measured d).minimise .phaseOne

/-- A trial keeps the variables there are, with an artificial one. -/
theorem Placeable.trial (h : t.Placeable d) :
    (t.trial d).2.Linked none ∧ (t.addVariable .slack none).2.SameVars (t.trial d).2 ∧
      (t.trial d).2.rows.length = t.rows.length + 1 := by
  obtain ⟨hlinked, -, hsame⟩ := h.measured
  refine ⟨hlinked.minimise .phaseOne, hsame.trans (hlinked.sameVars_minimise .phaseOne), ?_⟩
  refine (hlinked.length_rows_minimise .phaseOne).trans ?_
  rw [Tableau.measured, length_rows_attach]
  exact congrArg (fun rows => rows.length + 1) (rows_addVariable t .slack none)

/-- Counters do not matter to a trial. -/
theorem alikeResults_trial_count (t : Tableau K Q) (d : Draft K) (f : Counters → Counters) :
    AlikeResults ((t.count f).trial d) (t.trial d) := by
  obtain ⟨a, t', u', ht, hu, hadded⟩ :=
    (((Alike.refl t).count_left f).addVariable .slack none).exists_eq
  rw [trial, trial, measured, measured, artificial, artificial, ht, hu]
  exact ((hadded.withPhaseOne _).attach _).minimise .phaseOne

/-- A draft that is tried is placed by its trial. -/
theorem place_of_tried (h : t.Tried d) :
    (t.place d).1 = (t.trial d).1.map (fun _ => reached (t.trial d)) ∧
      (t.place d).2.Alike ((t.trial d).2.settled d t.artificial (reached (t.trial d))) := by
  obtain ⟨hsubject, w, hw, hkind⟩ := h
  have hmixed : ¬(d.expr.vars.all fun v => t.kind v = .constant) := fun hall =>
    hkind (by simpa using List.all_eq_true.mp hall w hw)
  obtain ⟨f, hplace⟩ : ∃ f, t.place d = (((t.count f).trial d).1.map fun _ =>
      reached ((t.count f).trial d), ((t.count f).trial d).2.settled d (t.count f).artificial
        (reached ((t.count f).trial d))) := by
    rw [place, hsubject]
    simp only [hmixed, Bool.false_eq_true, if_false]
    exact ⟨_, rfl⟩
  obtain ⟨ho, hm⟩ := alikeResults_trial_count t d f
  have hreached : reached ((t.count f).trial d) = reached (t.trial d) := by
    rw [reached, reached, ho, isMet, isMet, hm.objective_eq]
  have hartificial : (t.count f).artificial = t.artificial :=
    (((Alike.refl t).count_left f).addVariable .slack none).1
  rw [hplace, ho, hreached, hartificial]
  exact ⟨rfl, ((hm.withPhaseOne none).retire _ _ _).discard _⟩

/-- A draft that is not tried defines a variable, or it speaks of markers alone: then it is
redundant, or it is refused and leaves nothing but its variables. -/
theorem place_of_not_tried (h : ¬t.Tried d) :
    ((t.place d).1 = .ok true ∧ (d.constraint.tag.marker ∈ d.expr.vars →
        (t.place d).2.rows.length = t.rows.length + 1)) ∨
      t.place d = (.ok false, t.releaseRow d.row) := by
  rw [place]
  cases hsubject : t.subject? d with
  | some v =>
      refine .inl ⟨rfl, fun _ => ?_⟩
      dsimp only
      rw [rows_count, length_rows_attach, length_rows_substitute]
  | none =>
      have hall : d.expr.vars.all fun v => t.kind v = .constant := by
        rw [List.all_eq_true]
        intro v hv
        by_contra hkind
        exact h ⟨hsubject, v, hv, by simpa using hkind⟩
      simp only [hall, if_true, placeRedundant]
      by_cases hz : Coefficient.negligible d.expr.constant
      · refine .inl ?_
        by_cases hm : d.expr.contains d.constraint.tag.marker
        · simp only [hz, hm, if_true]
          exact ⟨trivial, fun _ => length_rows_attach _ _⟩
        · simp only [hz, hm, if_true, Bool.false_eq_true, if_false]
          exact ⟨trivial, fun hmem => absurd (LinExpr.contains_iff.mpr hmem) hm⟩
      · simp only [hz, Bool.false_eq_true, if_false]
        exact .inr trivial

/-- Placing a draft fails only where its trial does. -/
theorem trial_of_place_error {fault : Fault} (h : (t.place d).1 = .error fault) :
    t.Tried d ∧ (t.trial d).1 = .error fault := by
  by_cases htried : t.Tried d
  · rw [(place_of_tried htried).1] at h
    cases htrial : (t.trial d).1 with
    | ok _ =>
        rw [htrial] at h
        exact absurd h (by simp [Except.map])
    | error fault' =>
        rw [htrial] at h
        exact ⟨htried, congrArg _ (Except.error.inj h)⟩
  · rcases place_of_not_tried htried with ⟨hok, -⟩ | hrefused
    · rw [hok] at h
      exact absurd h (by simp)
    · rw [hrefused] at h
      exact absurd h (by simp)

/-- A draft that is tried is refused where its trial does not fail and ends above zero. -/
theorem trial_of_place_false (htried : t.Tried d) (h : (t.place d).1 = .ok false) :
    (t.trial d).1 = .ok () ∧ reached (t.trial d) = false := by
  rw [(place_of_tried htried).1] at h
  cases htrial : (t.trial d).1 with
  | ok _ =>
      rw [htrial] at h
      exact ⟨rfl, Except.ok.inj h⟩
  | error fault =>
      rw [htrial] at h
      exact absurd h (by simp [Except.map])

/-- A draft that is refused can define no variable. -/
theorem subject?_of_place_false (h : (t.place d).1 = .ok false) : t.subject? d = none := by
  cases hsubject : t.subject? d with
  | none => rfl
  | some v =>
      rw [place, hsubject] at h
      exact absurd h (by simp)

/-! ### What an insertion leaves where it fails -/

variable [Precision K Q] {request : Request K} {relation : Relation} {fault : Fault}

/-- The tableau at the end of the trial of a request's draft. -/
def tried (t : Tableau K Q) (request : Request K) (relation : Relation) : Tableau K Q :=
  ((t.draft request relation).2.trial (t.draft request relation).1).2

/-- The variables that are made for a request. -/
def made (t : Tableau K Q) (request : Request K) (relation : Relation) : List VarId :=
  (t.draft request relation).1.constraint.tag.vars

/-- The variables that are discarded where a request fails that was tried: the artificial one, and
those made for the request if it is refused. -/
def shed (t : Tableau K Q) (request : Request K) (relation : Relation) (fault : Fault) :
    List VarId :=
  (t.draft request relation).2.artificial ::
    if fault.isInfeasible then t.made request relation else []

/-- What an insertion **leaves where it fails**: nothing at all if a variable is unknown, what
there was if the draft was not tried, and otherwise what the trial came to. -/
inductive Failed (t : Tableau K Q) (request : Request K) (relation : Relation) :
    Fault → Tableau K Q → Prop
  | unknown (v : VarId) : Failed t request relation (.unknownVariable v) t
  | refused {fault : Fault} {left : Tableau K Q} (hfault : fault.isInfeasible)
    (hnot : ¬(t.draft request relation).2.Tried (t.draft request relation).1)
    (hleft : left.Alike ((t.made request relation).foldl discard
      ((t.draft request relation).2.releaseRow (t.draft request relation).1.row))) :
    Failed t request relation fault left
  | tried {fault : Fault} {left : Tableau K Q} (hfault : fault.isInfeasible ∨ fault.isInternal)
    (htried : (t.draft request relation).2.Tried (t.draft request relation).1)
    (hleft : left.Alike ((t.shed request relation fault).foldl discard
      { t.tried request relation with phaseOne := none })) :
    Failed t request relation fault left

/-- An insertion that fails leaves what is said of it. -/
theorem Linked.failed (h : t.Linked none)
    (hfault : (t.insert request relation).1 = .error fault) :
    t.Failed request relation fault (t.insert request relation).2 := by
  have hplaceable := (h.draft request relation).placeable h
  set d := (t.draft request relation).1 with hd
  set t' := (t.draft request relation).2 with ht'
  obtain ⟨hlinked, -, -⟩ := hplaceable.trial
  have hplaced : t.placed request relation = t'.place d := rfl
  have hsettled : t'.Tried d → reached (t'.trial d) = false → (t'.place d).2.Alike
      (({ t.tried request relation with phaseOne := none } : Tableau K Q).discard
        t'.artificial) := by
    intro htried hreached
    have halike := (place_of_tried htried).2
    rwa [hreached, hlinked.settled_false] at halike
  revert hfault
  refine insert_cases (p := fun result => result.1 = .error fault →
    t.Failed request relation fault result.2) ?_ ?_ ?_ ?_
  · intro v _ _ heq
    obtain rfl := Except.error.inj heq
    exact .unknown v
  · intro fault' _ hplace heq
    obtain rfl := Except.error.inj heq
    obtain ⟨htried, htrial⟩ := trial_of_place_error hplace
    have hinternal := isInternal_of_minimise htrial
    have hshed : t.shed request relation fault' = [t'.artificial] := by
      cases fault' <;> first | rfl | exact absurd hinternal (by simp [Fault.isInternal])
    have hreached : reached (t'.trial d) = false := by
      rw [reached, htrial]
      rfl
    refine .tried (.inr hinternal) htried ?_
    rw [hshed]
    exact hsettled htried hreached
  · exact fun _ _ heq => absurd heq (by simp)
  · intro text f _ hplace heq
    obtain rfl := Except.error.inj heq
    rw [hplaced] at hplace ⊢
    by_cases htried : t'.Tried d
    · have hreached := (trial_of_place_false htried hplace).2
      refine .tried (.inl rfl) htried ?_
      exact ((hsettled htried hreached).foldl_discard d.constraint.tag.vars).count_left f
    · rcases place_of_not_tried htried with ⟨hok, -⟩ | hrefused
      · rw [hok] at hplace
        exact absurd hplace (by simp)
      · rw [hrefused]
        exact .refused rfl htried ((Alike.refl _).count_left f)

/-- A request that is refused is one for live variables, whose draft is refused. -/
theorem place_of_refused {text : String}
    (h : (t.insert request relation).1 = .error (.infeasible text)) :
    (∀ v ∈ request.expr.vars, t.vars.isLive v) ∧
      ((t.draft request relation).2.place (t.draft request relation).1).1 = .ok false := by
  revert h
  refine insert_cases (p := fun result => result.1 = .error (.infeasible text) →
    (∀ v ∈ request.expr.vars, t.vars.isLive v) ∧
      ((t.draft request relation).2.place (t.draft request relation).1).1 = .ok false) ?_ ?_ ?_ ?_
  · exact fun _ _ _ heq => absurd heq (by simp)
  · intro fault _ hplace heq
    obtain rfl := Except.error.inj heq
    have hinternal := isInternal_of_minimise (trial_of_place_error hplace).2
    exact absurd hinternal (by simp [Fault.isInternal])
  · exact fun _ _ heq => absurd heq (by simp)
  · exact fun _ _ hlive hplace _ => ⟨hlive, hplace⟩

end Trials

end Tableau

end LexSimplex
