import LexSimplex.Proofs.Penalties

/-!
# External variables stay among themselves

An external variable may have any value, so no row should depend on one that must not become
negative. A row is **sheltered** if it defines an external variable or mentions none, and every
row of a reachable tableau is. Nothing checks this. It holds because a row gives way to an
external variable only if the row's own variable is external: a new row is solved for an external
variable whenever it has one, externals stop no other variable from moving, and a marker that is
made basic leaves the rows of externals to the last.

Feasibility has no part in the argument. So it goes through for removals that spoil the values of
a tableau, for requests that are refused, and for minimisations that are given up.

An external variable has no price, and stands in no row that has one. So the goal, which charges
for priced rows alone, does not mention it either.

## Main definitions

* `Tableau.Sheltered`: rows of other variables mention no external one.

## Main results

* `Tableau.Sheltered.minimise`, `Tableau.Sheltered.place`, `Tableau.Sheltered.removeEquation`:
  what each operation makes of a sheltered tableau.
* `Tableau.Sheltered.substitute_eq`: an external variable is replaced in rows of external variables
  alone.
* `Solver.Reachable.externals_apart`: every reachable tableau is sheltered, and so is its goal.
-/

namespace LexSimplex

namespace Tableau

/-- A tableau is **sheltered** if every row is: none that defines a slack, an error or a constant
mentions an external variable. -/
def Sheltered (t : Tableau Rat Rat) : Prop :=
  ∀ r ∈ t.rows, r.Sheltered t.kind

variable {t t' : Tableau Rat Rat} {r : Row Rat} {v : VarId} {d : Draft Rat}

/-- A tableau is sheltered if every row is. -/
theorem sheltered_iff : t.Sheltered ↔ t.EveryRow Row.Sheltered :=
  Iff.rfl

namespace Sheltered

/-! ### Row operations -/

/-- Rows that were there before, of variables whose kinds stay. -/
theorem of_rows (h : t.Sheltered) {out : Option RowId} (hl : t.Linked out)
    (hrows : ∀ r ∈ t'.rows, r ∈ t.rows) (hkind : ∀ v, t.vars.isLive v → t'.kind v = t.kind v) :
    t'.Sheltered :=
  (sheltered_iff.mp h).of_rows Row.sheltered_local hl hrows hkind

/-- Counting keeps a tableau sheltered. -/
theorem count (h : t.Sheltered) (f : Counters → Counters) : (t.count f).Sheltered :=
  (sheltered_iff.mp h).count Row.sheltered_local f

/-- A row taken out, and a variable replaced by what the row says of it. The variable stands in
rows of external variables alone, or the row that gives way is none of these. -/
theorem substitute_detach (h : t.Sheltered) (hl : t.Linked none) (hr : r ∈ t.rows)
    (hgives : ∀ q ∈ t.rows, v ∈ q.expr.vars → t.kind q.basic ≠ .external →
      t.kind r.basic ≠ .external) :
    ((t.detach r).substitute v (redefined r v).expr).Sheltered := by
  refine (sheltered_iff.mp h).substitute_detach Row.sheltered_local hl hr fun q hq _ hv => ?_
  exact (h q hq).substitute (hl.row q hq).nodup fun hk =>
    (h r hr).term_redefined (hl.row r hr).nodup (hgives q hq hv hk)

/-! ### Exchanges -/

/-- An exchange keeps a tableau sheltered if the variable that leaves is not external. -/
theorem redefine (h : t.Sheltered) (hl : t.Linked none) (hr : r ∈ t.rows)
    (hb : t.kind r.basic ≠ .external) : (t.redefine r v).Sheltered := by
  have hterm : ∀ w ∈ (redefined r v).expr.vars, t.kind w ≠ .external :=
    (h r hr).term_redefined (hl.row r hr).nodup hb
  exact (sheltered_iff.mp h).redefine Row.sheltered_local hl hr (fun _ => hterm) fun q hq _ _ =>
    (h q hq).substitute (hl.row q hq).nodup fun _ => hterm

/-- A **minimisation** keeps a tableau sheltered, also if it is given up. -/
theorem minimise (h : t.Sheltered) (hl : t.Linked none) (o : Objective) :
    (t.minimise o).2.Sheltered := by
  refine (minimise_induction (p := fun t => t.Linked none ∧ t.Sheltered) ?_ ?_ ⟨hl, h⟩).2
  · rintro t f ⟨hl, h⟩
    exact ⟨hl.count f, h.count f⟩
  · rintro t v dir r ⟨hl, h⟩ - hleave hrow
    obtain ⟨hr, hv⟩ := hl.mem_of_leaving? hleave hrow
    exact ⟨hl.redefine hr hv, h.redefine hl hr (hl.kind_ne_external_of_leaving? hr hleave)⟩

/-! ### Insertions -/

/-- A draft is solved for an external variable if it has one, and mentions none otherwise. -/
theorem solved (h : t.Sheltered) (hd : t.Admissible d) (hv : t.subject? d = some v) :
    (t.solved d v).Sheltered := by
  have hl := hd.placeable.linked
  rcases subject?_cases hv with ⟨-, hexternal⟩ | ⟨hne, hown, -, -⟩
  · refine (sheltered_iff.mp h).solved Row.sheltered_local hd.placeable (fun q hq hmem => ?_)
      (Row.sheltered_of_external hexternal)
    exact (h q hq).substitute (hl.row q hq).nodup fun hk => absurd hexternal (h q hq hk v hmem)
  · obtain ⟨-, habsent⟩ := (hd.free_own v hown).absent hl hd.normal
    exact (sheltered_iff.mp h).solved Row.sheltered_local hd.placeable
      (fun q hq hmem => absurd hmem (habsent q hq))
      fun _ w hw => hne w ((LinExpr.mem_vars_solveFor hd.placeable.nodup v w).mp hw).2

/-- A draft that has no subject mentions no external variable, so it may be measured. -/
theorem measured (h : t.Sheltered) (hd : t.Placeable d) (hv : t.subject? d = none) :
    (t.measured d).Sheltered := by
  refine (sheltered_iff.mp h).measured Row.sheltered_local hd fun _ w hw => ?_
  rw [hd.kind_measured_of_isLive (hd.term w hw).1]
  exact kind_ne_external_of_subject?_eq_none hv w hw

/-- The artificial variable is a slack, so its row may define any variable in its place. -/
theorem settled {m : Tableau Rat Rat} {art : VarId} (h : m.Sheltered) (hm : Measures t d art m)
    (reached : Bool) : (m.settled d art reached).Sheltered := by
  refine (sheltered_iff.mp h).settled Row.sheltered_local hm reached
    fun r hr hart v _ _ hclear => ?_
  have hkind : m.kind r.basic = .slack := hart ▸ hm.kind_eq
  have hsheltered : ({ m with phaseOne := none } : Tableau Rat Rat).Sheltered := h
  exact hsheltered.redefine hclear hr fun hk => absurd (hkind.symm.trans hk) (by simp)

/-- **Placing** a draft keeps a tableau sheltered, whether it is accepted or not. -/
theorem place (h : t.Sheltered) (hd : t.Admissible d) : (t.place d).2.Sheltered := by
  refine (sheltered_iff.mp h).place Row.sheltered_local hd (fun v hv => h.solved hd hv)
    (fun hconstant _ => ?_) fun f hcounted hsubject => ?_
  · exact fun _ w hw hk => absurd ((hconstant w hw).symm.trans hk) (by simp)
  · have hmeasures := hcounted.measurable.measures
    have hmeasured := (h.count f).measured hcounted.placeable hsubject
    exact (hmeasured.minimise hmeasures.linked .phaseOne).settled (hmeasures.minimise .phaseOne) _

/-- Making a draft changes no row. -/
theorem draft (h : t.Sheltered) (hl : t.Linked none) (request : Request Rat)
    (relation : Relation) : (t.draft request relation).2.Sheltered :=
  (sheltered_iff.mp h).draft Row.sheltered_local hl request relation

/-- An **insertion** keeps a tableau sheltered, accepted or not. -/
theorem insert (h : t.Sheltered) (hl : t.Linked none) (hn : t.Normal) (request : Request Rat)
    (relation : Relation) : (t.insert request relation).2.Sheltered :=
  (sheltered_iff.mp h).insert Row.sheltered_local hl fun hlive =>
    (h.draft hl request relation).place (hl.admissible hn hlive relation)

/-! ### Removals -/

/-- A marker is made basic in a row of an external variable only where it stands in no other
row. -/
theorem eliminated {m : VarId} (h : t.Sheltered) (hl : t.Linked none) (hn : t.Normal)
    (hrow : (t.markerRow? m).bind t.row? = some r) : (t.eliminated r m).Sheltered := by
  obtain ⟨hmarked, hcases⟩ := hl.markerRow?_cases hrow
  obtain ⟨hr, -, -⟩ := hl.mem_marked.mp hmarked
  have hsub : ((t.detach r).substitute m (redefined r m).expr).Sheltered := by
    refine h.substitute_detach hl hr fun q hq hm hk => ?_
    rcases hcases with ⟨b, -, hb⟩ | ⟨-, b, -, hb⟩ | hexternal
    · exact (growthBlocker?_eq_some_iff.mp hb).1.1
    · exact (riser?_eq_some_iff.mp hb).1.1
    · have hmarked := hl.mem_marked_of_ne_zero hq ((hn q hq).mem_vars_iff.mp hm)
      exact absurd (hexternal q hmarked) hk
  exact hsub

/-- Taking an equation out keeps a tableau sheltered. -/
theorem removeEquation (h : t.Sheltered) (hl : t.Linked none) (hn : t.Normal) (m : VarId) :
    (t.removeEquation m).Sheltered := by
  refine removeEquation_cases (p := fun t' => t'.Sheltered) (fun q hdef => ?_) ?_ ?_
  · exact (sheltered_iff.mp h).dropRow Row.sheltered_local hl (hl.definition?_eq_some_iff.mp hdef).1
  · exact fun q _ hrow => h.eliminated hl hn hrow
  · exact fun _ _ => h

/-- A **removal** keeps a tableau sheltered, also if it does not keep it feasible. -/
theorem withdraw (h : t.Sheltered) (hl : t.Linked none) (hn : t.Normal) (id : ConstraintId)
    (tag : Tag) : (t.withdraw id tag).Sheltered := by
  have hunlisted := hl.unlisted id tag
  have hrows := rows_unlisted t id tag
  have hstart : (t.unlisted id tag).Sheltered :=
    h.of_rows hl (fun r hr => hrows ▸ hr)
      fun v hv => (keeps_unlisted t id tag []).kind_eq List.not_mem_nil hv
  have hremoved := hstart.removeEquation hunlisted (hn.of_rows hrows) tag.marker
  exact (sheltered_iff.mp hremoved).foldl_discard Row.sheltered_local
    (hunlisted.removeEquation tag.marker).1 tag.vars

/-! ### The goal -/

/-- The goal of a sheltered tableau charges for no external variable: these have no price and
stand in no row that has one. -/
theorem goal_kind_ne_external (h : t.Sheltered) (hl : t.Linked none) (hb : t.Balanced) :
    ∀ v ∈ t.goal.vars, t.kind v ≠ .external := by
  intro v hv hk
  obtain ⟨htidy, hterm⟩ := hl.tidy_objective .goal
  have hzero : ∀ s, (t.goal.coefficient v).get s = 0 := by
    intro s
    rw [hb.get_coefficient hl (hterm v hv).2, (t.price_nonneg v s).2 (by simp [hk]), zero_add]
    refine List.sum_eq_zero fun x hx => ?_
    obtain ⟨r, hr, rfl⟩ := List.mem_map.mp hx
    by_cases hkind : t.kind r.basic = .error
    · have hnot : v ∉ r.expr.vars := fun hmem => h r hr (by simp [hkind]) v hmem hk
      rw [LinExpr.coefficient_of_notMem hnot, mul_zero]
    · rw [(t.price_nonneg r.basic s).2 hkind, zero_mul]
  obtain ⟨⟨w, x⟩, hmem, rfl⟩ := List.mem_map.mp hv
  have hget : t.goal.terms.get? w = some x := (Assoc.get?_eq_some_iff htidy.nodup).mpr hmem
  have hcoef : t.goal.coefficient w = x := by rw [Goal.coefficient, hget, Option.getD_some]
  have hnonzero := htidy.ne_zero _ hmem
  rw [hcoef] at hzero
  rw [TierVector.isZero_iff.mpr hzero] at hnonzero
  exact absurd hnonzero (by simp)

/-! ### Drafts with an external variable -/

/-- In a sheltered tableau the substitution of an external variable leaves every row as it is that
does not define an external variable itself. -/
theorem substitute_eq (h : t.Sheltered) (hk : t.kind v = .external) (e : LinExpr Rat)
    (hr : r ∈ t.rows) (hb : t.kind r.basic ≠ .external) : r.substitute v e = r := by
  have hnot : v ∉ r.expr.vars := fun hmem => h r hr hb v hmem hk
  rw [Row.substitute, LinExpr.substitute_of_notMem hnot]

end Sheltered

/-- A draft with an external variable is accepted and defines the first one, which is replaced in
the other rows. -/
theorem Linked.insert_of_external (hl : t.Linked none) {request : Request Rat}
    {relation : Relation} (hlive : ∀ w ∈ request.expr.vars, t.vars.isLive w)
    (hv : (t.draft request relation).1.expr.vars.find?
      (fun w => (t.draft request relation).2.kind w = .external) = some v) :
    (∃ id, (t.insert request relation).1 = .ok id) ∧
    (t.insert request relation).2.rows =
      (t.rows.map fun r => r.substitute v ((t.draft request relation).1.expr.solveFor v)) ++
        [⟨(t.draft request relation).1.row, v, (t.draft request relation).1.expr.solveFor v⟩] := by
  have hdrafted := hl.draft request relation
  have hsubject : (t.draft request relation).2.subject? (t.draft request relation).1 = some v := by
    rw [subject?, hv, Option.some_or]
  have hplace : (t.placed request relation).1 = .ok true ∧ (t.placed request relation).2.rows =
      ((t.draft request relation).2.solved (t.draft request relation).1 v).rows := by
    rw [placed, Tableau.place, hsubject]
    exact ⟨rfl, rows_count _ _⟩
  have hrows : (t.placed request relation).2.rows =
      (t.rows.map fun r => r.substitute v ((t.draft request relation).1.expr.solveFor v)) ++
        [⟨(t.draft request relation).1.row, v,
          (t.draft request relation).1.expr.solveFor v⟩] := by
    rw [hplace.2, Tableau.solved, rows_attach, hdrafted.linked.rows_substitute,
      hdrafted.joined.rows]
  refine insert_cases (p := fun result => (∃ id, result.1 = .ok id) ∧ result.2.rows = _) ?_ ?_ ?_ ?_
  · exact fun w hw hdead => absurd (hlive w hw) hdead
  · exact fun fault _ hfault => absurd (hplace.1.symm.trans hfault) (by simp)
  · exact fun _ _ => ⟨⟨_, rfl⟩, (rows_register _ _).trans hrows⟩
  · exact fun _ _ _ hrefused => absurd (hplace.1.symm.trans hrefused) (by simp)

/-! ### Reachable solvers -/

/-- What a reachable tableau is like: regular and sheltered. -/
theorem closed_sheltered (named : VarId → Prop) :
    Closed named fun t : Tableau Rat Rat => t.Regular ∧ t.Sheltered := by
  have hregular := closed_regular named
  refine ⟨fun t request relation hnamed h => ⟨hregular.insert t request relation hnamed h.1, ?_⟩,
    fun t id h => ⟨hregular.remove t id h.1, ?_⟩, fun t v x h => ⟨hregular.pin t v x h.1, ?_⟩,
    fun t v h => ⟨hregular.unpin t v h.1, ?_⟩, fun t f h => ⟨hregular.count t f h.1, h.2.count f⟩⟩
  · exact h.2.insert h.1.wellFormed.linked h.1.normal request relation
  · exact remove_cases (p := fun result => result.2.Sheltered) (fun _ => h.2) fun c _ =>
      h.2.withdraw h.1.wellFormed.linked h.1.normal id c.tag
  · exact h.2.of_rows h.1.wellFormed.linked (fun _ hr => hr)
      fun w _ => kind_modifyVar t v (f := (·.pin x)) (fun _ => rfl) w
  · exact h.2.of_rows h.1.wellFormed.linked (fun _ hr => hr)
      fun w _ => kind_modifyVar t v (f := Variable.unpin) (fun _ => rfl) w

end Tableau

namespace Solver

variable {s : Solver Rat Rat}

/-- Every reachable solver's tableau is sheltered. -/
theorem Reachable.sheltered (h : s.Reachable) : s.tableau.Sheltered := by
  have hnothing : ∀ {t : Tableau Rat Rat}, t.rows = [] → t.Sheltered :=
    fun hrows r hr => absurd (hrows ▸ hr) List.not_mem_nil
  refine (h.of_closed (p := fun t => t.Regular ∧ t.Sheltered)
    (Tableau.closed_sheltered fun _ => True) ?_ ?_ ?_ ?_ ?_ ?_).2
  · exact fun settings => ⟨regular_empty settings, hnothing rfl⟩
  · intro t kind stem ht
    refine ⟨ht.1.addVariable kind stem, ht.2.of_rows ht.1.wellFormed.linked (fun r hr => ?_)
      fun _ hv => (t.continues_addVariable kind stem).kind_eq hv⟩
    rwa [Tableau.rows_addVariable] at hr
  · exact fun t ht => ⟨ht.1.minimise .goal, ht.2.minimise ht.1.wellFormed.linked .goal⟩
  · exact fun t ht => ⟨ht.1.settle, ht.2.of_rows ht.1.wellFormed.linked (fun _ hr => hr)
      fun _ hv => t.continues_settle.kind_eq hv⟩
  · exact fun t _ => ⟨regular_reset, hnothing rfl⟩
  · exact fun t ht => ⟨ht.1.resetCounters,
      ht.2.of_rows ht.1.wellFormed.linked (fun _ hr => hr) fun _ _ => rfl⟩

/-- **External variables stay among themselves.** In every reachable solver no row of a slack, an
error or a constant mentions an external variable, and neither does the goal. So where a request
whose variables exist comes to have an external variable, it is accepted, its row is solved for the
first one, and replacing that one changes no row of a slack, an error or a constant. The request
may find a variable unpinned that is to be held. -/
theorem Reachable.externals_apart (h : s.Reachable) :
    (∀ r ∈ s.tableau.rows, s.tableau.kind r.basic ≠ .external →
      ∀ v ∈ r.expr.vars, s.tableau.kind v ≠ .external) ∧
    (∀ v ∈ s.tableau.goal.vars, s.tableau.kind v ≠ .external) ∧
    ∀ t, (t = s.tableau ∨ ∃ v, t = s.tableau.modifyVar v Variable.unpin) →
      ∀ request relation v, (∀ w ∈ request.expr.vars, t.vars.isLive w) →
        (t.draft request relation).1.expr.vars.find?
          (fun w => (t.draft request relation).2.kind w = .external) = some v →
        (∃ id, (t.insert request relation).1 = .ok id) ∧
        (t.insert request relation).2.rows =
          (t.rows.map fun r => r.substitute v ((t.draft request relation).1.expr.solveFor v)) ++
            [⟨(t.draft request relation).1.row, v,
              (t.draft request relation).1.expr.solveFor v⟩] ∧
        ∀ r ∈ t.rows, t.kind r.basic ≠ .external →
          r.substitute v ((t.draft request relation).1.expr.solveFor v) = r := by
  have hlinked := h.regular.wellFormed.linked
  refine ⟨h.sheltered, h.sheltered.goal_kind_ne_external hlinked h.balanced, ?_⟩
  intro t hstart request relation v hlive hv
  obtain ⟨hregular, hsheltered⟩ : t.Regular ∧ t.Sheltered := by
    have hclosed := Tableau.closed_sheltered fun _ => True
    rcases hstart with rfl | ⟨w, rfl⟩
    · exact ⟨h.regular, h.sheltered⟩
    · exact hclosed.unpin s.tableau w ⟨h.regular, h.sheltered⟩
  have hl := hregular.wellFormed.linked
  obtain ⟨hok, hrows⟩ := hl.insert_of_external hlive hv
  refine ⟨hok, hrows, fun r hr hb => ?_⟩
  have hdraft := hsheltered.draft hl request relation
  have hjoined := (hl.draft request relation).joined
  have hk : (t.draft request relation).2.kind v = .external := by
    simpa using List.find?_some hv
  have hkind := hjoined.kind_eq (hjoined.notMem_of_isLive (hl.row r hr).basic_isLive)
  exact hdraft.substitute_eq hk _ (hjoined.rows.symm ▸ hr) (hkind.symm ▸ hb)

/-- A solver in which a position is at least one, and so at least zero, and in which one of two
others should be five after the other. -/
def fenced : Solver Rat Rat :=
  (empty {}).run
    [.declare .external "x", .declare .external "y", .declare .external "z",
      .add (pinRequest ⟨2⟩ (1 : Rat)) .ge, .add (pinRequest ⟨2⟩ (0 : Rat)) .ge,
      .arrange (.equality ⟨1⟩ ⟨0⟩ 5) .medium]

/-- That `x` be at most three is put into the row of `y`, which mentions it. The row of the slack
that the weaker bound leaves stays. -/
theorem externals_apart_of_fenced :
    let t := fenced.tableau
    let u := (t.insert (pinRequest ⟨0⟩ (3 : Rat)) .le).2
    (t.rows.map fun r => t.kind r.basic) = [.external, .slack, .external] ∧
      (t.rows.map fun r => r.expr.constant) = [1, 1, 5] ∧
      (u.rows.map fun r => r.expr.constant) = [1, 1, 8, 3] ∧
      ∀ r ∈ t.rows, t.kind r.basic ≠ .external → r ∈ u.rows := by
  intro t u
  obtain ⟨-, -, hinsert⟩ := Reachable.externals_apart (s := fenced) ⟨_, _, rfl⟩
  obtain ⟨-, hrows, hsame⟩ := hinsert t (.inl rfl) (pinRequest ⟨0⟩ (3 : Rat)) .le ⟨0⟩
    (by decide +kernel) (by decide +kernel)
  refine ⟨by decide +kernel, by decide +kernel, by decide +kernel, fun r hr hk => ?_⟩
  exact hrows ▸ List.mem_append_left _ (List.mem_map.mpr ⟨r, hr, hsame r hr hk⟩)

end Solver

end LexSimplex
