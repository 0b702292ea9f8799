import LexSimplex.Proofs.Drafts
import LexSimplex.Proofs.Exchanges
import LexSimplex.Tableau.Insert

/-!
# How a draft is placed

A draft is placed in one of five ways, and each consists of row operations. The longest is by
way of an **artificial** variable, which is there only until the draft is placed: afterwards the
tableau has the variables that it had before.

## Main definitions

* `Tableau.Placeable`: what placing a draft relies on.
* `Tableau.measured`: a tableau while a draft is being measured by an artificial variable.

## Main results

* `Tableau.place_cases`: the ways to place a draft.
* `Tableau.Linked.place`: placing a draft keeps the links and the variables.
-/

namespace LexSimplex

namespace Tableau

variable {K Q : Type} {t : Tableau K Q} {d : Draft K} {v : VarId}

/-- The variable that takes the place of an artificial one has a term in its row. -/
theorem mem_of_successor?_eq_some {e : LinExpr K} {marker : VarId}
    (h : t.successor? e marker = some v) : v ∈ e.vars := by
  rw [successor?] at h
  cases hrestricted : e.vars.find? fun v => (t.kind v).restricted with
  | some w =>
      rw [hrestricted, Option.some_or] at h
      obtain rfl := Option.some.inj h
      exact List.mem_of_find?_eq_some hrestricted
  | none =>
      rw [hrestricted, Option.none_or] at h
      cases hexternal : e.vars.find? fun v => t.kind v = .external with
      | some w =>
          rw [hexternal, Option.some_or] at h
          obtain rfl := Option.some.inj h
          exact List.mem_of_find?_eq_some hexternal
      | none =>
          rw [hexternal, Option.none_or] at h
          by_cases hm : e.contains marker
          · rw [if_pos hm] at h
            obtain rfl := Option.some.inj h
            exact LinExpr.contains_iff.mp hm
          · rw [if_neg hm] at h
            exact absurd h (by simp)

/-- An artificial variable is replaced only where it reached zero, and by a variable of its row. -/
theorem reached_and_mem_of_successor? {e : LinExpr K} {marker : VarId} {reached : Bool}
    (h : (if reached then t.successor? e marker else none) = some v) :
    reached = true ∧ v ∈ e.vars := by
  cases reached with
  | true => exact ⟨rfl, mem_of_successor?_eq_some h⟩
  | false => exact absurd h (by simp)

variable [Coefficient K]

/-- What placing a draft relies on: its equation and its own variables are of live variables
that are not basic, and nothing speaks of its marker if that is a constant. -/
structure Placeable (t : Tableau K Q) (d : Draft K) : Prop where
  linked : t.Linked (some d.row)
  nodup : d.expr.vars.Nodup
  term : ∀ w ∈ d.expr.vars, t.vars.isLive w ∧ ¬t.IsBasic w
  own : ∀ w ∈ d.constraint.tag.vars, t.vars.isLive w ∧ ¬t.IsBasic w
  marker_absent : t.kind d.constraint.tag.marker = .constant → t.Absent d.constraint.tag.marker

/-! ### The ways to place a draft -/

section Ways

variable [Scalar Q]

/-- The artificial variable that a draft would be given. -/
def artificial (t : Tableau K Q) : VarId :=
  (t.addVariable .slack none).1

/-- A tableau with an artificial variable that is basic in a draft's row, and the draft's
expression as the objective. -/
def measured (t : Tableau K Q) (d : Draft K) : Tableau K Q :=
  ({ (t.addVariable .slack none).2 with phaseOne := some (Goal.ofExpr d.expr .fixed) } :
    Tableau K Q).attach ⟨d.row, t.artificial, d.expr⟩

/-- A tableau after a measured draft was minimised: the artificial variable is gone, and with it
its row if zero was not reached. -/
def settled (t : Tableau K Q) (d : Draft K) (a : VarId) (reached : Bool) : Tableau K Q :=
  (({ t with phaseOne := none } : Tableau K Q).retire a d.constraint.tag.marker reached).discard a

/-- A tableau with a draft's row that defines `v`. -/
def solved (t : Tableau K Q) (d : Draft K) (v : VarId) : Tableau K Q :=
  (t.substitute v (d.expr.solveFor v)).attach ⟨d.row, v, d.expr.solveFor v⟩

/-- Whether a minimisation brought its objective to zero. -/
def reached (outcome : Except Fault Unit × Tableau K Q) : Bool :=
  outcome.1.toBool && outcome.2.isMet .phaseOne

/-- The **ways to place** a draft: what holds of the result of each, whatever the counters,
holds of placing it. -/
theorem place_cases {p : Except Fault Bool × Tableau K Q → Prop}
    (hcount : ∀ o t f, p (o, t) → p (o, t.count f))
    (hsubject : ∀ v, t.subject? d = some v → p (.ok true, t.solved d v))
    (hredundant : t.subject? d = none → (∀ w ∈ d.expr.vars, t.kind w = .constant) →
      Coefficient.negligible d.expr.constant → d.constraint.tag.marker ∈ d.expr.vars →
      p (.ok true, t.attach ⟨d.row, d.constraint.tag.marker,
        d.expr.solveFor d.constraint.tag.marker⟩))
    (hempty : d.constraint.tag.marker ∉ d.expr.vars → p (.ok true, t.releaseRow d.row))
    (hcontradiction : t.subject? d = none → (∀ w ∈ d.expr.vars, t.kind w = .constant) →
      ¬Coefficient.negligible d.expr.constant → p (.ok false, t.releaseRow d.row))
    (hartificial : ∀ f, t.subject? d = none → p
      ((((t.count f).measured d).minimise .phaseOne).1.map fun _ =>
        reached (((t.count f).measured d).minimise .phaseOne),
      (((t.count f).measured d).minimise .phaseOne).2.settled d (t.count f).artificial
        (reached (((t.count f).measured d).minimise .phaseOne)))) :
    p (t.place d) := by
  rw [place]
  split
  · rename_i v hv
    exact hcount _ _ _ (hsubject v hv)
  · rename_i hnone
    split
    · rename_i hall
      have hconstant : ∀ w ∈ d.expr.vars, t.kind w = .constant := by
        simpa using hall
      rw [placeRedundant]
      by_cases hz : Coefficient.negligible d.expr.constant
      · by_cases hm : d.expr.contains d.constraint.tag.marker
        · simp only [hz, hm, if_true]
          exact hredundant hnone hconstant hz (LinExpr.contains_iff.mp hm)
        · simp only [hz, hm, if_true, Bool.false_eq_true, if_false]
          exact hempty fun hmem => hm (LinExpr.contains_iff.mpr hmem)
      · simp only [hz, Bool.false_eq_true, if_false]
        exact hcontradiction hnone hconstant hz
    · exact hartificial _ hnone

end Ways

/-- The subject of a draft is external and has a term in it, or there is none and it is one of the
draft's own variables. -/
theorem subject?_cases (h : t.subject? d = some v) :
    (v ∈ d.expr.vars ∧ t.kind v = .external) ∨
      ((∀ w ∈ d.expr.vars, t.kind w ≠ .external) ∧ v ∈ d.constraint.tag.vars ∧
        (t.kind v).restricted ∧ d.expr.coefficient v < 0) := by
  rw [subject?] at h
  cases hexternal : d.expr.vars.find? fun v => t.kind v = .external with
  | some w =>
      rw [hexternal, Option.some_or] at h
      obtain rfl := Option.some.inj h
      exact .inl ⟨List.mem_of_find?_eq_some hexternal,
        by simpa using List.find?_some hexternal⟩
  | none =>
      rw [hexternal, Option.none_or] at h
      refine .inr ⟨by simpa using hexternal, List.mem_of_find?_eq_some h, ?_⟩
      simpa using List.find?_some h

/-- A draft without a subject has no external variable. -/
theorem kind_ne_external_of_subject?_eq_none (h : t.subject? d = none) :
    ∀ w ∈ d.expr.vars, t.kind w ≠ .external := by
  rw [subject?, Option.or_eq_none_iff] at h
  simpa using h.1

/-! ### Links -/

/-- The count of an event does not matter to a draft. -/
theorem Placeable.count (h : t.Placeable d) (f : Counters → Counters) :
    (t.count f).Placeable d := by
  obtain ⟨hlinked, hnodup, hterm, hown, habs⟩ := h
  have hrows := rows_count t f
  refine ⟨hlinked.count f, hnodup, fun w hw => ?_, fun w hw => ?_, fun hk => ?_⟩
  · rw [vars_count, isBasic_congr hrows]
    exact hterm w hw
  · rw [vars_count, isBasic_congr hrows]
    exact hown w hw
  · rw [kind_count] at hk
    exact (habs hk).of_eq hrows (objectives_count t f)

/-- The subject of a draft is live and not basic. -/
theorem Placeable.subject (h : t.Placeable d) (hv : t.subject? d = some v) :
    t.vars.isLive v ∧ ¬t.IsBasic v := by
  rcases subject?_cases hv with ⟨hmem, -⟩ | ⟨-, hmem, -⟩
  · exact h.term v hmem
  · exact h.own v hmem

/-- The variables of an equation solved for one of them are the others. -/
theorem Placeable.term_solveFor (h : t.Placeable d) {w : VarId}
    (hw : w ∈ (d.expr.solveFor v).vars) : w ≠ v ∧ t.vars.isLive w ∧ ¬t.IsBasic w := by
  obtain ⟨hwv, hw⟩ := (LinExpr.mem_vars_solveFor h.nodup v w).mp hw
  exact ⟨hwv, h.term w hw⟩

/-- A draft may be solved for any live variable that is not basic. -/
theorem Linked.solved (h : t.Placeable d) (hlive : t.vars.isLive v) (hv : ¬t.IsBasic v) :
    (t.solved d v).Linked none ∧ t.SameVars (t.solved d v) := by
  have hnodup := LinExpr.nodup_vars_solveFor h.nodup v
  have hterm := fun w => h.term_solveFor (v := v) (w := w)
  have hvd : v ∉ (d.expr.solveFor v).vars := fun hmem => (hterm v hmem).1 rfl
  have hsame := h.linked.sameVars_substitute hnodup v
  have hsub := h.linked.substitute hnodup hterm
  refine ⟨?_, hsame.trans (SameVars.attach _ hnodup)⟩
  refine Linked.attach (r := ⟨d.row, v, d.expr.solveFor v⟩) hsub ?_ ?_ hnodup fun w hw => ?_
  · exact (hsame.isLive_iff v).mpr hlive
  · exact h.linked.absent_substitute hv hvd
  · obtain ⟨hwv, hwlive, hwbasic⟩ := hterm w hw
    exact ⟨hwv, (hsame.isLive_iff w).mpr hwlive,
      fun hb => hwbasic ((h.linked.isBasic_substitute v _ w).mp hb)⟩

/-- A marker that is a constant may define the row of a draft. -/
theorem Linked.attachMarker (h : t.Placeable d)
    (hk : t.kind d.constraint.tag.marker = .constant) :
    (t.attach ⟨d.row, d.constraint.tag.marker,
        d.expr.solveFor d.constraint.tag.marker⟩).Linked none ∧
      t.SameVars (t.attach ⟨d.row, d.constraint.tag.marker,
        d.expr.solveFor d.constraint.tag.marker⟩) := by
  have hnodup := LinExpr.nodup_vars_solveFor h.nodup d.constraint.tag.marker
  refine ⟨?_, SameVars.attach t hnodup⟩
  exact Linked.attach (r := ⟨d.row, d.constraint.tag.marker, _⟩) h.linked
    (h.own _ List.mem_cons_self).1 (h.marker_absent hk) hnodup fun w hw => h.term_solveFor hw

/-- The row of an artificial variable may go or define another of its variables. -/
theorem Linked.retire (h : t.Linked none) (a marker : VarId) (reached : Bool) :
    (t.retire a marker reached).Linked none ∧ t.SameVars (t.retire a marker reached) := by
  rw [Tableau.retire]
  cases hdef : t.definition? a with
  | none => exact ⟨h, SameVars.refl t⟩
  | some r =>
      obtain ⟨hr, -⟩ := h.definition?_eq_some_iff.mp hdef
      cases hnext : if reached then t.successor? r.expr marker else none with
      | none =>
          simp only [hnext]
          exact ⟨h.dropRow hr, h.sameVars_dropRow hr⟩
      | some v =>
          simp only [hnext]
          obtain ⟨-, hv⟩ := reached_and_mem_of_successor? hnext
          exact ⟨h.redefine hr hv, h.sameVars_redefine hr⟩

section Links

variable [Scalar Q]

/-- A new variable is absent. -/
theorem Linked.absent_addVariable {out : Option RowId} (h : t.Linked out) (kind : Kind)
    (stem : Option String) :
    (t.addVariable kind stem).2.Absent (t.addVariable kind stem).1 := by
  have hdead : ¬t.vars.isLive (t.addVariable kind stem).1 := by
    rw [VariablePool.isLive_iff, t.get?_addVariable_fst kind stem]
    simp
  exact (h.absent_of_not_isLive hdead).of_eq (rows_addVariable t kind stem)
    (objectives_addVariable t kind stem)

/-- The artificial variable is a slack and was not live, and the others stay. -/
theorem Placeable.measured (h : t.Placeable d) :
    (t.measured d).Linked none ∧ t.vars.get? t.artificial = none ∧
      (t.addVariable .slack none).2.SameVars (t.measured d) := by
  have hadd := h.linked.addVariable .slack none
  have hlive := t.isLive_addVariable .slack none
  have habs := h.linked.absent_addVariable .slack none
  have hterm : ∀ w ∈ d.expr.vars, w ≠ t.artificial ∧
      (t.addVariable .slack none).2.vars.isLive w ∧ ¬(t.addVariable .slack none).2.IsBasic w := by
    intro w hw
    obtain ⟨hwlive, hwbasic⟩ := h.term w hw
    refine ⟨?_, (hlive w).mpr (.inr hwlive), ?_⟩
    · rintro rfl
      rw [artificial, VariablePool.isLive_iff, t.get?_addVariable_fst .slack none] at hwlive
      simp at hwlive
    · rwa [isBasic_congr (rows_addVariable t .slack none)]
  obtain ⟨htidy, hobj⟩ := Goal.Tidy.ofExpr d.expr .fixed
  have hphase := hadd.withPhaseOne (o := some (Goal.ofExpr d.expr .fixed)) fun g hg => by
    obtain rfl := Option.mem_some.mp hg
    exact ⟨htidy, fun w hw => (hterm w (hobj w hw)).2⟩
  refine ⟨?_, t.get?_addVariable_fst .slack none, ?_⟩
  · refine Linked.attach (r := ⟨d.row, t.artificial, d.expr⟩) hphase ?_ ?_ h.nodup hterm
    · exact (hlive _).mpr (.inl rfl)
    · refine ⟨habs.not_isBasic, habs.notMem_row, fun g hg hmem => ?_⟩
      rcases List.mem_cons.mp hg with rfl | hg
      · exact habs.notMem_goal _ List.mem_cons_self hmem
      · obtain rfl := List.mem_singleton.mp hg
        exact (hterm _ (hobj _ hmem)).1 rfl
  · have hset : (t.addVariable .slack none).2.SameVars
        { (t.addVariable .slack none).2 with phaseOne := some (Goal.ofExpr d.expr .fixed) } :=
      .of_eq rfl
    exact hset.trans (SameVars.attach (r := ⟨d.row, t.artificial, d.expr⟩) _ h.nodup)

/-- A measured draft leaves no trace of the artificial variable. -/
theorem Placeable.settled (h : t.Placeable d) {t' : Tableau K Q} (hlinked : t'.Linked none)
    (hsame : (t.measured d).SameVars t') (reached : Bool) :
    (t'.settled d t.artificial reached).Linked none ∧
      t.SameVars (t'.settled d t.artificial reached) := by
  obtain ⟨-, -, hmeasured⟩ := h.measured
  have hclear := hlinked.withoutPhaseOne
  obtain ⟨hretired, hkept⟩ :=
    hclear.retire t.artificial d.constraint.tag.marker reached
  have hsameClear : t'.SameVars { t' with phaseOne := none } := .of_eq rfl
  refine ⟨hretired.discard t.artificial, ?_⟩
  exact (((hmeasured.trans hsame).trans hsameClear).trans
    (hkept.trans (hretired.sameVars_purge t.artificial))).release_addVariable

/-- Placing a draft keeps the links and the variables. -/
theorem Linked.place (h : t.Placeable d) :
    (t.place d).2.Linked none ∧ t.SameVars (t.place d).2 := by
  refine place_cases (p := fun result => result.2.Linked none ∧ t.SameVars result.2) ?_ ?_ ?_ ?_
    ?_ ?_
  · rintro o t' f ⟨hlinked, hsame⟩
    exact ⟨hlinked.count f, hsame.trans (SameVars.count f)⟩
  · intro v hv
    obtain ⟨hlive, hbasic⟩ := h.subject hv
    exact Linked.solved h hlive hbasic
  · intro _ hconstant _ hmem
    exact Linked.attachMarker h (hconstant _ hmem)
  · intro _
    exact ⟨h.linked.releaseRow, .of_eq rfl⟩
  · exact fun _ _ _ => ⟨h.linked.releaseRow, .of_eq rfl⟩
  · intro f _
    have hcounted := h.count f
    obtain ⟨hmeasured, -, -⟩ := hcounted.measured
    obtain ⟨hlinked, hsame⟩ := hcounted.settled (hmeasured.minimise .phaseOne)
      (hmeasured.sameVars_minimise .phaseOne) _
    exact ⟨hlinked, (SameVars.count f).trans hsame⟩

end Links

end Tableau

end LexSimplex
