import LexSimplex.Proofs.Admission

/-!
# What holds of every row

Much of what can be said of a row is a matter of that row and of the kinds of its variables. If a
row also keeps it without one of its terms, it is a **local** property. Such a property stays with
the rows where others are taken out, where variables are discarded and where a draft is made. It has
to be shown again only of a row that is put in, and of one in which a variable was replaced.

## Main definitions

* `Row.Local`: a property that depends on the kinds of a row's own variables alone, and that a row
  keeps without one of its terms.
* `Tableau.EveryRow`: every row of a tableau has a property.

## Main results

* `Tableau.EveryRow.substitute`, `Tableau.EveryRow.redefine`: a substitution and an exchange keep a
  local property if the rows that they change have it.
* `Tableau.EveryRow.discard`, `Tableau.EveryRow.dropRow`, `Tableau.EveryRow.draft`: what goes, and
  what is only drafted, keeps it in any case.
* `Tableau.EveryRow.place`, `Tableau.EveryRow.settled`, `Tableau.EveryRow.insert`: placing a draft,
  the end of a measurement and an insertion keep it if what they come to has it.
-/

namespace LexSimplex

/-- A property of rows is **local** if it depends on the kinds of a row's own variables alone, and
if a row keeps it without one of its terms. -/
structure Row.Local (P : (VarId → Kind) → Row Rat → Prop) : Prop where
  congr : ∀ {kind kind' : VarId → Kind} {q : Row Rat}, P kind q →
    kind' q.basic = kind q.basic → (∀ w ∈ q.expr.vars, kind' w = kind w) → P kind' q
  without : ∀ {kind : VarId → Kind} {q : Row Rat}, P kind q → q.expr.vars.Nodup →
    ∀ v, P kind { q with expr := q.expr.without v }

namespace Tableau

/-- **Every row** of a tableau has a property, under the kinds that its variables have there. -/
def EveryRow (P : (VarId → Kind) → Row Rat → Prop) (t : Tableau Rat Rat) : Prop :=
  ∀ r ∈ t.rows, P t.kind r

variable {t t' : Tableau Rat Rat} {r : Row Rat} {v : VarId} {d : Draft Rat}

/-- Measuring a draft leaves the kind of every variable but the artificial one. -/
theorem Placeable.kind_measured (hd : t.Placeable d) (hv : v ≠ t.artificial) :
    (t.measured d).kind v = t.kind v := by
  obtain ⟨-, -, hsame⟩ := hd.measured
  obtain ⟨name, hget⟩ := t.get?_addVariable .slack none
  rw [artificial] at hv
  rw [hsame.kind_eq, kind, hget, if_neg hv]
  rfl

/-- The artificial variable is new, so what was live is of the kind that it was. -/
theorem Placeable.kind_measured_of_isLive (hd : t.Placeable d) (hv : t.vars.isLive v) :
    (t.measured d).kind v = t.kind v := by
  obtain ⟨-, hnew, -⟩ := hd.measured
  refine hd.kind_measured ?_
  rintro rfl
  rw [VariablePool.isLive_iff, hnew] at hv
  exact absurd hv (by simp)

namespace EveryRow

variable {P : (VarId → Kind) → Row Rat → Prop}

/-! ### Row operations -/

/-- Rows that were there before, of variables whose kinds stay. -/
theorem of_rows (h : t.EveryRow P) (hP : Row.Local P) {out : Option RowId} (hl : t.Linked out)
    (hrows : ∀ r ∈ t'.rows, r ∈ t.rows) (hkind : ∀ v, t.vars.isLive v → t'.kind v = t.kind v) :
    t'.EveryRow P := by
  intro r hr
  have hrow := hl.row r (hrows r hr)
  exact hP.congr (h r (hrows r hr)) (hkind _ hrow.basic_isLive)
    fun w hw => hkind w (hrow.term w hw).1

/-- Counting keeps what holds of every row. -/
theorem count (h : t.EveryRow P) (hP : Row.Local P) (f : Counters → Counters) :
    (t.count f).EveryRow P := by
  intro r hr
  rw [rows_count] at hr
  exact hP.congr (h r hr) (kind_count t f _) fun w _ => kind_count t f w

/-- What holds of every row still does with an attached row of which it holds. -/
theorem attach (h : t.EveryRow P) (hP : Row.Local P) (hr : r.expr.vars.Nodup)
    (hrow : P t.kind r) : (t.attach r).EveryRow P := by
  have hkind := (SameVars.attach t hr).kind_eq
  intro q hq
  rw [rows_attach, List.mem_append, List.mem_singleton] at hq
  have hq : P t.kind q := by
    rcases hq with hq | rfl
    · exact h q hq
    · exact hrow
  exact hP.congr hq (hkind _) fun w _ => hkind w

/-- Dropping a row keeps what holds of every row. -/
theorem dropRow (h : t.EveryRow P) (hP : Row.Local P) (hl : t.Linked none) (hr : r ∈ t.rows) :
    (t.dropRow r).EveryRow P :=
  h.of_rows hP hl (fun q hq => ((hl.mem_rows_dropRow hr q).mp hq).1)
    fun v _ => (hl.sameVars_dropRow hr).kind_eq v

/-- A substitution changes the rows that mention the variable, and no other. -/
theorem substitute (h : t.EveryRow P) (hP : Row.Local P) {out : Option RowId} (hl : t.Linked out)
    {e : LinExpr Rat} (he : e.vars.Nodup)
    (hsub : ∀ q ∈ t.rows, v ∈ q.expr.vars → P t.kind (q.substitute v e)) :
    (t.substitute v e).EveryRow P := by
  have hkind := (hl.sameVars_substitute he v).kind_eq
  intro s hs
  rw [hl.rows_substitute] at hs
  obtain ⟨q, hq, rfl⟩ := List.mem_map.mp hs
  have hrow : P t.kind (q.substitute v e) := by
    by_cases hv : v ∈ q.expr.vars
    · exact hsub q hq hv
    · have hsame : q.substitute v e = q := by
        rw [Row.substitute, LinExpr.substitute_of_notMem hv]
      exact hsame.symm ▸ h q hq
  exact hP.congr hrow (hkind _) fun w _ => hkind w

/-- A row taken out, and a variable replaced in the others by what that row says of it. -/
theorem substitute_detach (h : t.EveryRow P) (hP : Row.Local P) (hl : t.Linked none)
    (hr : r ∈ t.rows)
    (hsub : ∀ q ∈ t.rows, q ≠ r → v ∈ q.expr.vars →
      P t.kind (q.substitute v (redefined r v).expr)) :
    ((t.detach r).substitute v (redefined r v).expr).EveryRow P := by
  have hkind := (SameVars.detach t (hl.row r hr).nodup).kind_eq
  have hmem := hl.mem_rows_detach hr
  have hdetach : (t.detach r).EveryRow P :=
    h.of_rows hP hl (fun q hq => ((hmem q).mp hq).1) fun w _ => hkind w
  refine hdetach.substitute hP (hl.detach hr) (hl.nodup_redefined hr) fun q hq hv => ?_
  obtain ⟨hq, hne⟩ := (hmem q).mp hq
  exact hP.congr (hsub q hq hne hv) (hkind _) fun w _ => hkind w

/-- An **exchange** puts in one row and changes those that mention the entering variable. -/
theorem redefine (h : t.EveryRow P) (hP : Row.Local P) (hl : t.Linked none) (hr : r ∈ t.rows)
    (hrow : P t.kind (redefined r v))
    (hsub : ∀ q ∈ t.rows, q ≠ r → v ∈ q.expr.vars →
      P t.kind (q.substitute v (redefined r v).expr)) : (t.redefine r v).EveryRow P := by
  have hkind : ∀ w, ((t.detach r).substitute v (redefined r v).expr).kind w = t.kind w := by
    intro w
    rw [((hl.detach hr).sameVars_substitute (hl.nodup_redefined hr) v).kind_eq,
      (SameVars.detach t (hl.row r hr).nodup).kind_eq]
  rw [redefine_eq]
  exact (h.substitute_detach hP hl hr hsub).attach hP (hl.nodup_redefined hr)
    (hP.congr hrow (hkind _) fun w _ => hkind w)

/-! ### Variables that go -/

/-- Discarding a variable keeps what holds of every row. -/
theorem discard (h : t.EveryRow P) (hP : Row.Local P) (hl : t.Linked none) (v : VarId) :
    (t.discard v).EveryRow P := by
  have hkind : ∀ w, w ≠ v → (t.discard v).kind w = t.kind w := by
    intro w hw
    have hget : (t.discard v).vars.get? w = if w = v then none else (t.purge v).vars.get? w :=
      VariablePool.get?_release _ v w
    rw [kind, hget, if_neg hw]
    exact (hl.sameVars_purge v).kind_eq w
  intro s hs
  obtain ⟨q, hq, hqv, rfl⟩ := (hl.mem_rows_discard v s).mp hs
  have hnodup := (hl.row q hq).nodup
  refine hP.congr (hP.without (h q hq) hnodup v) (hkind _ hqv) fun w hw => hkind w ?_
  exact ((LinExpr.mem_vars_without hnodup v w).mp hw).1

/-- Discarding variables keeps what holds of every row. -/
theorem foldl_discard (h : t.EveryRow P) (hP : Row.Local P) (hl : t.Linked none)
    (vs : List VarId) : (vs.foldl Tableau.discard t).EveryRow P := by
  induction vs generalizing t with
  | nil => exact h
  | cons v vs ih => exact ih (h.discard hP hl v) (hl.discard v)

/-! ### Insertions -/

/-- A draft solved for a variable puts in one row and changes those that mention the variable. -/
theorem solved (h : t.EveryRow P) (hP : Row.Local P) (hd : t.Placeable d)
    (hsub : ∀ q ∈ t.rows, v ∈ q.expr.vars → P t.kind (q.substitute v (d.expr.solveFor v)))
    (hrow : P t.kind ⟨d.row, v, d.expr.solveFor v⟩) : (t.solved d v).EveryRow P := by
  have hnodup := LinExpr.nodup_vars_solveFor hd.nodup v
  have hkind := (hd.linked.sameVars_substitute hnodup v).kind_eq
  exact (h.substitute hP hd.linked hnodup hsub).attach hP hnodup
    (hP.congr hrow (hkind v) fun w _ => hkind w)

/-- Measuring a draft puts in the row of its artificial variable. -/
theorem measured (h : t.EveryRow P) (hP : Row.Local P) (hd : t.Placeable d)
    (hrow : P (t.measured d).kind ⟨d.row, t.artificial, d.expr⟩) : (t.measured d).EveryRow P := by
  intro s hs
  rw [rows_measured, List.mem_append, List.mem_singleton] at hs
  rcases hs with hs | rfl
  · have hlinks := hd.linked.row s hs
    exact hP.congr (h s hs) (hd.kind_measured_of_isLive hlinks.basic_isLive)
      fun w hw => hd.kind_measured_of_isLive (hlinks.term w hw).1
  · exact hrow

/-- After a measurement the artificial variable's row goes, or it defines another variable. -/
theorem settled {m : Tableau Rat Rat} {art : VarId} (h : m.EveryRow P) (hP : Row.Local P)
    (hm : Measures t d art m) (reached : Bool)
    (hredefine : ∀ r ∈ m.rows, r.basic = art → ∀ v ∈ r.expr.vars, reached →
      ({ m with phaseOne := none } : Tableau Rat Rat).Linked none →
      (({ m with phaseOne := none } : Tableau Rat Rat).redefine r v).EveryRow P) :
    (m.settled d art reached).EveryRow P := by
  have hclear := hm.linked.withoutPhaseOne
  have hsame : ({ m with phaseOne := none } : Tableau Rat Rat).EveryRow P := h
  obtain ⟨hretired, -⟩ := hclear.retire art d.constraint.tag.marker reached
  refine discard ?_ hP hretired art
  rw [retire]
  split
  · exact hsame
  · rename_i r hdef
    obtain ⟨hr, hart⟩ := hclear.definition?_eq_some_iff.mp hdef
    split
    · exact hsame.dropRow hP hclear hr
    · rename_i v hnext
      obtain ⟨hreached, hv⟩ := reached_and_mem_of_successor? hnext
      exact hredefine r hr hart v hv hreached hclear

/-- **Placing** a draft puts in a row of constants, or comes to a draft that is solved or measured,
or leaves the rows as they are. -/
theorem place (h : t.EveryRow P) (hP : Row.Local P) (hd : t.Admissible d)
    (hsolved : ∀ v, t.subject? d = some v → (t.solved d v).EveryRow P)
    (hredundant : (∀ w ∈ (d.expr.solveFor d.constraint.tag.marker).vars, t.kind w = .constant) →
      d.expr.constant = 0 →
      P t.kind ⟨d.row, d.constraint.tag.marker, d.expr.solveFor d.constraint.tag.marker⟩)
    (hmeasured : ∀ f, (t.count f).Admissible d → (t.count f).subject? d = none →
      ((((t.count f).measured d).minimise .phaseOne).2.settled d (t.count f).artificial
        (reached (((t.count f).measured d).minimise .phaseOne))).EveryRow P) :
    (t.place d).2.EveryRow P := by
  have hl := hd.placeable.linked
  have hnodup := hd.placeable.nodup
  refine place_cases (p := fun result => result.2.EveryRow P) ?_ hsolved ?_ ?_ ?_ ?_
  · exact fun o t' f h => h.count hP f
  · intro _ hconstant hzero _
    exact h.attach hP (LinExpr.nodup_vars_solveFor hnodup _) (hredundant
      (fun w hw => hconstant w ((LinExpr.mem_vars_solveFor hnodup _ w).mp hw).2)
      (negligible_iff.mp hzero))
  · exact fun _ => h.of_rows hP hl (fun _ hr => hr) fun _ _ => rfl
  · exact fun _ _ _ => h.of_rows hP hl (fun _ hr => hr) fun _ _ => rfl
  · intro f hsubject
    refine hmeasured f (hd.count f) ?_
    simpa only [subject?, kind_count] using hsubject

/-- Making a draft changes no row. -/
theorem draft (h : t.EveryRow P) (hP : Row.Local P) (hl : t.Linked none) (request : Request Rat)
    (relation : Relation) : (t.draft request relation).2.EveryRow P := by
  have hdrafted := hl.draft request relation
  refine h.of_rows hP hl (fun r hr => hdrafted.joined.rows ▸ hr) fun v hv => ?_
  exact hdrafted.joined.kind_eq (hdrafted.joined.notMem_of_isLive hv)

/-- An **insertion** keeps what placing its draft keeps, accepted or not. -/
theorem insert (h : t.EveryRow P) (hP : Row.Local P) (hl : t.Linked none) {request : Request Rat}
    {relation : Relation}
    (hplace : (∀ v ∈ request.expr.vars, t.vars.isLive v) →
      (t.placed request relation).2.EveryRow P) : (t.insert request relation).2.EveryRow P := by
  obtain ⟨hplaced, -⟩ := Linked.place ((hl.draft request relation).placeable hl)
  refine insert_cases (p := fun result => result.2.EveryRow P) ?_ ?_ ?_ ?_
  · exact fun _ _ _ => h
  · exact fun _ hlive _ => hplace hlive
  · intro hlive _
    obtain ⟨-, hkeeps⟩ := hplaced.register (t.draft request relation).1.constraint
    refine (hplace hlive).of_rows hP hplaced (fun r hr => ?_)
      fun v hv => hkeeps.kind_eq List.not_mem_nil hv
    rwa [rows_register] at hr
  · exact fun _ f hlive _ => ((hplace hlive).foldl_discard hP hplaced _).count hP f

end EveryRow

end Tableau

end LexSimplex
