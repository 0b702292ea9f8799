import LexSimplex.Proofs.Solutions

/-!
# Measuring a draft

While a draft is measured, the solutions are those of the tableau in which the artificial
variable has the value of the draft's expression, and the objective has the value of the
artificial variable in each of them. Exchanges keep both. So if the artificial variable is not
basic at the end, the objective is that variable alone and zero was reached; and if it is basic,
its row goes or zero was reached.

## Main definitions

* `Tableau.Measures`: what holds while a draft is measured.

## Main results

* `Tableau.Measures.minimise`: it holds after a minimisation.
* `Tableau.Measures.reached_of_not_isBasic`: where the artificial variable left the basis, zero
  was reached.
* `Tableau.Measures.mem_marker`: where it is basic, the marker stands in its row.
-/

namespace LexSimplex

open Function (update update_self update_of_ne update_eq_self)

namespace Tableau

variable {t t' m : Tableau Rat Rat} {d : Draft Rat} {art v : VarId} {a : Assignment}

/-- What holds while a draft of the tableau `t` is **measured** by an artificial variable: its
solutions are those of `t` in which the variable has the value of the draft's expression, and the
objective is that variable at the strongest tier and zero at the others. -/
structure Measures (t : Tableau Rat Rat) (d : Draft Rat) (art : VarId)
    (m : Tableau Rat Rat) : Prop where
  linked : m.Linked none
  normal : m.Normal
  kind_eq : m.kind art = .slack
  satisfies_iff : ∀ a, m.Satisfies a ↔ t.Satisfies a ∧ a art = d.expr.eval a
  objective : ∀ s a, m.Satisfies a →
    (m.objective .phaseOne).evalAt s a = if s = .fixed then a art else 0

/-- What placing a draft relies on in exact arithmetic: the tableau and the draft are normal, the
marker has a term in the draft, and the draft's own variables are not yet in the tableau. -/
structure Admissible (t : Tableau Rat Rat) (d : Draft Rat) : Prop where
  placeable : t.Placeable d
  normal : t.Normal
  expr_normal : d.expr.Normal
  mem_marker : d.constraint.tag.marker ∈ d.expr.vars
  free_own : ∀ w ∈ d.constraint.tag.vars, t.FreeOf w

/-- What a measurement relies on: the draft is admissible, and the artificial variable is not yet
in the tableau or in the draft. -/
structure Measurable (t : Tableau Rat Rat) (d : Draft Rat) (art : VarId) : Prop
    extends t.Admissible d where
  free_art : t.FreeOf art
  notMem_art : art ∉ d.expr.vars

/-- The artificial variable is new. -/
theorem Admissible.measurable (h : t.Admissible d) : t.Measurable d t.artificial := by
  have hdead : ¬t.vars.isLive t.artificial := by
    rw [VariablePool.isLive_iff, artificial, t.get?_addVariable_fst .slack none]
    simp
  refine ⟨h, (h.placeable.linked.absent_of_not_isLive hdead).freeOf, fun hmem => ?_⟩
  exact hdead (h.placeable.term _ hmem).1

/-- Counting leaves a draft admissible. -/
theorem Admissible.count (h : t.Admissible d) (f : Counters → Counters) :
    (t.count f).Admissible d := by
  have hrows := rows_count t f
  refine ⟨h.placeable.count f, h.normal.of_rows hrows, h.expr_normal, h.mem_marker, ?_⟩
  intro w hw a x hsat
  exact (satisfies_congr hrows).mpr (h.free_own w hw a x ((satisfies_congr hrows).mp hsat))

/-! ### The objective through exchanges -/

/-- In solutions an exchange keeps the value of every objective: the variable that is replaced has
the value of the expression that replaces it. -/
theorem Linked.evalAt_redefine (hl : m.Linked none) (hn : m.Normal) {r : Row Rat}
    (hr : r ∈ m.rows) (hv : v ∈ r.expr.vars) (o : Objective) (ha : m.Satisfies a) (s : Strength) :
    ((m.redefine r v).objective o).evalAt s a = (m.objective o).evalAt s a := by
  have hvalue : (redefined r v).expr.eval a = a v :=
    ((hl.holds_redefined hn hr hv).mpr (ha r hr)).symm
  rw [objective_redefine, (hl.tidy_objective o).1.evalAt_substitute, hvalue, update_eq_self]

/-- An exchange goes on measuring. -/
theorem Measures.redefine (h : Measures t d art m) {r : Row Rat} (hr : r ∈ m.rows)
    (hv : v ∈ r.expr.vars) : Measures t d art (m.redefine r v) := by
  have hsat : ∀ a, (m.redefine r v).Satisfies a ↔ m.Satisfies a :=
    fun a => h.linked.satisfies_redefine h.normal hr hv
  refine ⟨h.linked.redefine hr hv, h.linked.normal_redefine h.normal hr, ?_, ?_, ?_⟩
  · rw [(h.linked.sameVars_redefine hr).kind_eq]
    exact h.kind_eq
  · intro a
    rw [hsat]
    exact h.satisfies_iff a
  · intro s a ha
    have hm := (hsat a).mp ha
    rw [h.linked.evalAt_redefine h.normal hr hv .phaseOne hm]
    exact h.objective s a hm

/-- Counting leaves what is measured. -/
theorem Measures.count (h : Measures t d art m) (f : Counters → Counters) :
    Measures t d art (m.count f) := by
  obtain ⟨hlinked, hnormal, hkind, hsat, hobj⟩ := h
  have hrows := rows_count m f
  refine ⟨hlinked.count f, hnormal.of_rows hrows, ?_, ?_, ?_⟩
  · rw [kind_count]
    exact hkind
  · intro a
    rw [satisfies_congr hrows]
    exact hsat a
  · intro s a ha
    rw [objective_count]
    exact hobj s a ((satisfies_congr hrows).mp ha)

/-- A minimisation goes on measuring. -/
theorem Measures.minimise (h : Measures t d art m) (o : Objective) :
    Measures t d art (m.minimise o).2 := by
  refine minimise_induction (p := Measures t d art) (fun m f hm => hm.count f) ?_ h
  intro m v _ r hm _ hleave hrow
  obtain ⟨hr, hv⟩ := hm.linked.mem_of_leaving? hleave hrow
  exact hm.redefine hr hv

/-- The row of a measured draft comes last. -/
theorem rows_measured (t : Tableau Rat Rat) (d : Draft Rat) :
    (t.measured d).rows = t.rows ++ [⟨d.row, t.artificial, d.expr⟩] := by
  rw [measured, rows_attach]
  exact congrArg (· ++ _) (rows_addVariable t .slack none)

/-- The solutions of a measurement are those in which the artificial variable is what the draft
comes to. -/
theorem satisfies_measured :
    (t.measured d).Satisfies a ↔ t.Satisfies a ∧ a t.artificial = d.expr.eval a := by
  simp only [Satisfies, rows_measured, List.mem_append, List.mem_singleton, or_imp, forall_and,
    forall_eq, Row.Holds]

/-- The artificial variable of a measured draft is a slack. -/
theorem Placeable.kind_measured_artificial (h : t.Placeable d) :
    (t.measured d).kind t.artificial = .slack := by
  obtain ⟨-, -, hsame⟩ := h.measured
  obtain ⟨name, hget⟩ := t.get?_addVariable .slack none
  have hlive := hget (t.addVariable .slack none).1
  rw [if_pos rfl] at hlive
  rw [hsame.kind_eq]
  exact kind_of_get? hlive

/-- A measured draft is measured by its artificial variable. -/
theorem Measurable.measures (h : t.Measurable d t.artificial) :
    Measures t d t.artificial (t.measured d) := by
  obtain ⟨hlinked, -, -⟩ := h.placeable.measured
  refine ⟨hlinked, ?_, h.placeable.kind_measured_artificial, ?_, ?_⟩
  · intro r hr
    rw [rows_measured, List.mem_append, List.mem_singleton] at hr
    rcases hr with hr | rfl
    · exact h.normal r hr
    · exact h.expr_normal
  · exact fun a => satisfies_measured
  · intro s a ha
    have hholds : a t.artificial = d.expr.eval a := (satisfies_measured.mp ha).2
    have hobj : (t.measured d).objective .phaseOne = Goal.ofExpr d.expr .fixed := by
      have hphase : (t.measured d).phaseOne = some (Goal.ofExpr d.expr .fixed) :=
        phaseOne_attach _ _
      rw [objective, hphase, Option.getD_some]
    rw [hobj, Goal.evalAt_ofExpr, hholds]

/-! ### The end of a measurement -/

/-- The objective has the value of the artificial variable for all values of the variables that
are not basic. -/
theorem Measures.evalAt_objective (h : Measures t d art m) (hart : ¬m.IsBasic art) (s : Strength)
    (b : Assignment) :
    (m.objective .phaseOne).evalAt s b = if s = .fixed then b art else 0 := by
  have hobj := h.objective s _ (h.linked.satisfies_extend b)
  rw [h.linked.extend_of_not_isBasic hart] at hobj
  rw [← hobj]
  exact Goal.evalAt_congr (fun w hw => (h.linked.extend_of_not_isBasic
    ((h.linked.tidy_objective _).2 w hw).2 b).symm) s

/-- The sign of a vector that is one at the strongest tier. -/
theorem sign_of_get_fixed {x : TierVector Rat} (h : x.get .fixed = 1) : x.sign = .gt := by
  have hleading : x.leading? = some (x.get .fixed) := by
    have hrev : x.toList.reverse = x.get .fixed :: [x.get .centering, x.get .barrier,
        x.get .equality, x.get .highest, x.get .high, x.get .medium, x.get .low,
        x.get .none] := rfl
    have hone : Coefficient.negligible (x.get .fixed) = false := by
      rw [h]
      exact Bool.eq_false_iff.mpr fun hz => one_ne_zero (negligible_iff.mp hz)
    rw [TierVector.leading?, hrev, List.find?_cons_of_pos (by simp [hone])]
  rw [TierVector.sign, hleading, h]
  exact if_neg (by norm_num)

/-- Where the artificial variable is not basic, zero was reached and nothing can enter. The
artificial variable itself could only grow, which would raise the objective. -/
theorem Measures.reached_of_not_isBasic (h : Measures t d art m) (hart : ¬m.IsBasic art) :
    m.entering? .phaseOne = none ∧ m.isMet .phaseOne := by
  have htidy := (h.linked.tidy_objective .phaseOne).1
  have hconst : ∀ s, (m.objective .phaseOne).constant.get s = 0 := by
    intro s
    rw [← Goal.evalAt_zero, h.evalAt_objective hart, ite_self]
  refine ⟨entering?_eq_none_iff.mpr fun term hterm => ?_, TierVector.isZero_iff.mpr hconst⟩
  have hget : (m.objective .phaseOne).coefficient term.1 = term.2 := by
    rw [Goal.coefficient, (Assoc.get?_eq_some_iff htidy.nodup).mpr hterm, Option.getD_some]
  have hvalue : ∀ s, term.2.get s =
      if s = .fixed then update (fun _ => (0 : Rat)) term.1 1 art else 0 := by
    intro s
    rw [← hget, htidy.get_coefficient, hconst, sub_zero, h.evalAt_objective hart]
  rcases eq_or_ne art term.1 with heq | hne
  · have hone : term.2.get .fixed = 1 := by
      rw [hvalue, if_pos rfl, heq, update_self]
    rw [improving, ← heq, h.kind_eq, sign_of_get_fixed hone]
  · have hzero : term.2.isZero := by
      refine TierVector.isZero_iff.mpr fun s => ?_
      rw [hvalue, update_of_ne hne, ite_self]
    exact absurd hzero (by simp [htidy.ne_zero term hterm])

/-- Where the artificial variable is basic and zero was reached, its row stands at zero. -/
theorem Measures.constant_eq_zero (h : Measures t d art m) (hmet : m.isMet .phaseOne)
    {r : Row Rat} (hr : r ∈ m.rows) (hart : r.basic = art) : r.expr.constant = 0 := by
  have hobj := h.objective .fixed _ h.linked.satisfies_rowValue
  have hvalue : m.rowValue art = r.expr.constant := by
    rw [rowValue, h.linked.definition?_eq_some_iff.mpr ⟨hr, hart⟩]
    rfl
  have hstand : (m.objective .phaseOne).evalAt .fixed m.rowValue =
      (m.objective .phaseOne).evalAt .fixed fun _ => 0 := by
    refine Goal.evalAt_congr (fun w hw => ?_) _
    rw [rowValue, h.linked.definition?_eq_none_iff.mpr ((h.linked.tidy_objective _).2 w hw).2]
    rfl
  rw [if_pos rfl, hvalue, hstand, Goal.evalAt_zero] at hobj
  exact hobj.symm.trans (TierVector.isZero_iff.mp hmet .fixed)

/-- Where the artificial variable is basic, the marker has a term in its row: the marker may have
any value in a solution, and moves the artificial variable. -/
theorem Measures.mem_marker (h : Measures t d art m) (hd : t.Measurable d art) {r : Row Rat}
    (hr : r ∈ m.rows) (hart : r.basic = art) : d.constraint.tag.marker ∈ r.expr.vars := by
  by_contra hnot
  have hne : art ≠ d.constraint.tag.marker := fun heq => hd.notMem_art (heq ▸ hd.mem_marker)
  have hown : art ∉ r.expr.vars := fun hmem =>
    ((h.linked.row r hr).term art hmem).2 ⟨r, hr, hart⟩
  have hcoef := hd.expr_normal.mem_vars_iff.mp hd.mem_marker
  have hvalue : ∀ x, m.Satisfies (update (update m.rowValue d.constraint.tag.marker x) art
      (d.expr.eval (update m.rowValue d.constraint.tag.marker x))) := by
    intro x
    obtain ⟨hsat, -⟩ := (h.satisfies_iff _).mp h.linked.satisfies_rowValue
    have hfree := hd.free_own _ List.mem_cons_self _ x hsat
    refine (h.satisfies_iff _).mpr ⟨hd.free_art _ _ hfree, ?_⟩
    rw [update_self, LinExpr.eval_update_of_notMem hd.notMem_art]
  have hmoved : ∀ x, d.expr.eval (update m.rowValue d.constraint.tag.marker x) =
      r.expr.eval m.rowValue := by
    intro x
    have hholds := hvalue x r hr
    rwa [Row.Holds, hart, update_self, LinExpr.eval_update_of_notMem hown,
      LinExpr.eval_update_of_notMem hnot] at hholds
  have hzero := hmoved 0
  have hone := hmoved 1
  rw [LinExpr.eval_update hd.expr_normal.nodup] at hzero hone
  exact hcoef (by linarith)

/-! ### After a measurement -/

/-- The successor of a basic artificial variable exists, since the marker would do. -/
theorem Measures.exists_successor (h : Measures t d art m) (hd : t.Measurable d art)
    {r : Row Rat} (hr : r ∈ m.rows) (hart : r.basic = art) :
    ∃ v, m.successor? r.expr d.constraint.tag.marker = some v := by
  have hmem := LinExpr.contains_iff.mpr (h.mem_marker hd hr hart)
  rw [← Option.isSome_iff_exists, successor?, if_pos hmem]
  simp

/-- The tableau after a measurement is normal. -/
theorem Measures.normal_settled (h : Measures t d art m) (reached : Bool) :
    (m.settled d art reached).Normal := by
  have hclear := h.linked.withoutPhaseOne
  have hretired := hclear.retire art d.constraint.tag.marker reached
  refine hretired.1.normal_discard ?_ art
  rw [retire]
  split
  · exact h.normal
  · rename_i r hdef
    obtain ⟨hr, -⟩ := hclear.definition?_eq_some_iff.mp hdef
    split
    · exact fun s hs => h.normal s ((hclear.mem_rows_dropRow hr s).mp hs).1
    · exact hclear.normal_redefine h.normal hr

/-- The equation of a draft where the artificial variable stands at zero. -/
theorem Measures.satisfies_zero (h : Measures t d art m) (hd : t.Measurable d art) :
    m.Satisfies (update a art 0) ↔ t.Satisfies a ∧ d.expr.eval a = 0 := by
  rw [h.satisfies_iff, hd.free_art.satisfies_update, update_self,
    LinExpr.eval_update_of_notMem hd.notMem_art, eq_comm (a := (0 : Rat))]

/-- A draft whose artificial variable reached zero, or left the basis, has its equation in the
tableau. -/
theorem Measures.satisfies_settled_of_reached (h : Measures t d art m)
    (hd : t.Measurable d art) {reached : Bool} (hreached : m.IsBasic art → reached) :
    (m.settled d art reached).Satisfies a ↔ t.Satisfies a ∧ d.expr.eval a = 0 := by
  have hclear := h.linked.withoutPhaseOne
  rw [← h.satisfies_zero hd, settled, retire]
  cases hdef : ({ m with phaseOne := none } : Tableau Rat Rat).definition? art with
  | none => exact hclear.satisfies_discard (hclear.definition?_eq_none_iff.mp hdef)
  | some r =>
      obtain ⟨hr, hart⟩ := hclear.definition?_eq_some_iff.mp hdef
      obtain ⟨v, hv⟩ := h.exists_successor hd hr hart
      have hsuccessor : ({ m with phaseOne := none } : Tableau Rat Rat).successor? r.expr
          d.constraint.tag.marker = some v := hv
      have hmem := mem_of_successor?_eq_some hv
      have hbasic : ¬(({ m with phaseOne := none } : Tableau Rat Rat).redefine r v).IsBasic
          art := by
        rintro ⟨s, hs, hsb⟩
        rcases (hclear.mem_rows_redefine hr s).mp hs with ⟨q, hq, hqr, rfl⟩ | rfl
        · exact hqr (hclear.eq_of_basic_eq hq hr (hsb.trans hart.symm))
        · have hvart : v = art := hsb
          exact ((hclear.row r hr).term v hmem).2 ⟨r, hr, hart.trans hvart.symm⟩
      simp only [hreached ⟨r, hr, hart⟩, if_true, hsuccessor]
      rw [(hclear.redefine hr hmem).satisfies_discard hbasic,
        hclear.satisfies_redefine h.normal hr hmem]
      exact satisfies_congr rfl

/-- A draft whose artificial variable is basic and did not reach zero leaves no trace. -/
theorem Measures.satisfies_settled_of_isBasic (h : Measures t d art m)
    (hd : t.Measurable d art) (hart : m.IsBasic art) :
    (m.settled d art false).Satisfies a ↔ t.Satisfies a := by
  have hclear := h.linked.withoutPhaseOne
  obtain ⟨r, hr, hrart⟩ := hart
  have hdef := hclear.definition?_eq_some_iff.mpr ⟨hr, hrart⟩
  have hsettled : m.settled d art false =
      (({ m with phaseOne := none } : Tableau Rat Rat).dropRow r).discard art := by
    rw [settled, retire, hdef]
    rfl
  have hbasic : ¬(({ m with phaseOne := none } : Tableau Rat Rat).dropRow r).IsBasic art := by
    rintro ⟨s, hs, hsb⟩
    obtain ⟨hst, hsr⟩ := (hclear.mem_rows_dropRow hr s).mp hs
    exact hsr (hclear.eq_of_basic_eq hst hr (hsb.trans hrart.symm))
  rw [hsettled, (hclear.dropRow hr).satisfies_discard hbasic, hclear.satisfies_dropRow_iff hr,
    hrart]
  simp only [Function.update_idem]
  constructor
  · rintro ⟨x, hsat⟩
    have hm : m.Satisfies (update a art x) := hsat
    exact (hd.free_art.satisfies_update x).mp ((h.satisfies_iff _).mp hm).1
  · intro hsat
    refine ⟨d.expr.eval a, ?_⟩
    have hm : m.Satisfies (update a art (d.expr.eval a)) := by
      refine (h.satisfies_iff _).mpr ⟨(hd.free_art.satisfies_update _).mpr hsat, ?_⟩
      rw [update_self, LinExpr.eval_update_of_notMem hd.notMem_art]
    exact hm

end Tableau

end LexSimplex
