import LexSimplex.Proofs.Feasibility
import LexSimplex.Proofs.Meaning

/-!
# Hard requests

While nothing is taken back, the values of a tableau solve its rows at all times, and with them
every hard request that was accepted. A value is the constant of a row, or zero, or the number at
which a variable is pinned; so for this a pinned variable must have its number in every solution
with markers at zero, or be in no row at all.

## Main definitions

* `Tableau.Fixes`: the solutions give a variable a value, or do not depend on it.
* `Tableau.Steady`: what insertions, exchanges and pins keep.
* `Tableau.Upholds`: a constraint is in force in a tableau, listed or overwritten.

## Main results

* `Tableau.Steady.satisfies_value`: the values of a steady tableau solve its rows.
* `Tableau.Steady.insert`, `Tableau.Steady.pin`: insertions and pins keep a tableau steady.
* `Session.Run.hard_requests_hold`: the hard requests of an additive run hold.
-/

namespace LexSimplex

open Function (update update_self update_of_ne)

namespace Tableau

variable {t t' t'' : Tableau Rat Rat} {a : Assignment} {v w : VarId} {x : Rat}
  {id : ConstraintId} {c : Constraint Rat}

/-! ### Values -/

/-- The solutions of a tableau **fix** a variable at a value if it has that value wherever
markers are zero, or if they do not depend on it. -/
def Fixes (t : Tableau Rat Rat) (v : VarId) (x : Rat) : Prop :=
  t.FreeOf v ∨ ∀ a, t.Satisfies a → (∀ w, t.kind w = .constant → a w = 0) → a v = x

/-- A tableau **suits** a constraint if the numbers that the constraint took in are still the values
of its folded variables, and if its own variables are of the kinds of its parts. -/
structure Suits (t : Tableau Rat Rat) (c : Constraint Rat) : Prop where
  values : ∀ v ∈ c.request.expr.vars, ∀ q, c.values.get? v = some q →
    ∃ y, t.vars.get? v = some y ∧ y.isFolded ∧ y.computed = q
  kinds : c.tag.vars.map t.kind = (parts c.request c.relation).map Part.kind

/-- A tableau is **steady** if it means its constraints, is feasible and suits them, and if the
numbers by which rows take variables in are right: constants are zero, and pinned variables are
external and have their values in the solutions. -/
structure Steady (t : Tableau Rat Rat) : Prop where
  faithful : t.Faithful
  feasible : t.BasicFeasible
  constant : ∀ v y, t.vars.get? v = some y → y.kind = .constant → y.computed = 0
  external : ∀ v y, t.vars.get? v = some y → y.pinned = true → y.kind = .external
  fixed : ∀ v y, t.vars.get? v = some y → y.pinned = true → t.Fixes v y.computed
  suits : ∀ id c, t.constraints.get? id = some c → t.Suits c

/-- A feasible tableau stands at values that the variables may have. -/
theorem BasicFeasible.admits_rowValue (h : t.BasicFeasible) (hl : t.Linked none) (v : VarId) :
    (t.kind v).Admits (t.rowValue v) := by
  rw [rowValue]
  cases hdef : t.definition? v with
  | none => exact Kind.admits_zero _
  | some r =>
      obtain ⟨hr, rfl⟩ := hl.definition?_eq_some_iff.mp hdef
      exact ⟨(h r hr).1, (h r hr).2.1⟩

/-- The value of a variable that is not folded is that of its row. -/
theorem value_of_not_isFolded {y : Variable Rat} (hy : t.vars.get? v = some y)
    (hf : y.isFolded = false) : t.value v = t.rowValue v := by
  rw [value, hy]
  exact if_neg (by simp [hf])

/-- A variable that is folded in is told its computed value. -/
theorem value_of_isFolded {y : Variable Rat} (hy : t.vars.get? v = some y)
    (hf : y.isFolded = true) : t.value v = y.computed := by
  rw [value, hy]
  exact if_pos hf

/-- In a steady tableau a variable that is not external has a value that it may have. -/
theorem Steady.admits_value (h : t.Steady) (hlive : t.vars.isLive v)
    (hk : t.kind v ≠ .external) : (t.kind v).Admits (t.value v) := by
  obtain ⟨y, hy⟩ := VariablePool.isLive_iff.mp hlive
  have hkind := kind_of_get? hy
  by_cases hf : y.isFolded = true
  · rw [value_of_isFolded hy hf]
    rw [Variable.isFolded, Bool.or_eq_true, decide_eq_true_eq] at hf
    rcases hf with hpinned | hconstant
    · exact absurd (hkind.trans (h.external v y hy hpinned)) hk
    · exact Kind.admits_of_eq_zero (h.constant v y hy hconstant)
  · rw [value_of_not_isFolded hy (Bool.eq_false_iff.mpr hf)]
    exact h.feasible.admits_rowValue h.faithful.wellFormed.linked v

/-- A variable in the rows of a steady tableau has the value that the rows give it. -/
theorem Steady.value_eq_rowValue (h : t.Steady) (hlive : t.vars.isLive v) (hv : ¬t.FreeOf v) :
    t.value v = t.rowValue v := by
  obtain ⟨y, hy⟩ := VariablePool.isLive_iff.mp hlive
  have hl := h.faithful.wellFormed.linked
  have hzero : ∀ w, t.kind w = .constant → t.rowValue w = 0 :=
    fun w hw => (h.feasible.admits_rowValue hl w).2 hw
  by_cases hf : y.isFolded = true
  · rw [value_of_isFolded hy hf]
    rw [Variable.isFolded, Bool.or_eq_true, decide_eq_true_eq] at hf
    rcases hf with hpinned | hconstant
    · rcases h.fixed v y hy hpinned with hfree | hfixed
      · exact absurd hfree hv
      · exact (hfixed _ hl.satisfies_rowValue hzero).symm
    · rw [h.constant v y hy hconstant, hzero v ((kind_of_get? hy).trans hconstant)]
  · exact value_of_not_isFolded hy (Bool.eq_false_iff.mpr hf)

/-- The **values** of a steady tableau solve its rows, since the solutions depend on the variables
in them. -/
theorem Steady.satisfies_value (h : t.Steady) : t.Satisfies t.value := by
  have hl := h.faithful.wellFormed.linked
  intro r hr
  have hrow := hl.row r hr
  have hbasic : t.value r.basic = t.rowValue r.basic := by
    refine h.value_eq_rowValue hrow.basic_isLive fun hfree => ?_
    exact (hfree.absent hl h.faithful.normal).1 ⟨r, hr, rfl⟩
  have hterm : ∀ w ∈ r.expr.vars, t.value w = t.rowValue w := by
    intro w hw
    refine h.value_eq_rowValue (hrow.term w hw).1 fun hfree => ?_
    exact (hfree.absent hl h.faithful.normal).2 r hr hw
  rw [Row.Holds, hbasic, LinExpr.eval_congr hterm]
  exact hl.satisfies_rowValue r hr

/-- Where the folded variables have the numbers that they stand at, a constraint that a tableau
suits has the expression of its request. -/
theorem Suits.eval_expr (h : t.Suits c)
    (ha : ∀ v y, t.vars.get? v = some y → y.isFolded → y.computed = a v) :
    c.expr.eval a = c.request.expr.eval a := by
  rw [Constraint.eval_expr, LinExpr.eval]
  congr 2
  refine List.map_congr_left fun term hterm => ?_
  rw [Constraint.resolve]
  cases hq : c.values.get? term.1 with
  | none => rfl
  | some q =>
      obtain ⟨y, hy, hf, rfl⟩ := h.values term.1 (List.mem_map_of_mem hterm) q hq
      rw [Option.getD_some, ha term.1 y hy hf]

/-- A tableau **upholds** a constraint if it suits it, if the constraint's own variables are live
and if every solution satisfies its equation. It does so for a constraint that is listed, and still
for one whose handle was given out again. -/
structure Upholds (t : Tableau Rat Rat) (c : Constraint Rat) : Prop where
  fit : c.Fit
  isLive : ∀ v ∈ c.tag.vars, t.vars.isLive v
  suits : t.Suits c
  holds : ∀ a, t.Satisfies a → c.Holds a

/-- A steady tableau upholds the constraints that are listed. -/
theorem Steady.upholds (h : t.Steady) (hc : t.constraints.get? id = some c) : t.Upholds c :=
  ⟨h.faithful.fit id c hc, h.faithful.wellFormed.owned.isLive id c hc, h.suits id c hc,
    fun a ha => h.faithful.holds a ha id c hc⟩

/-- A **hard request** without error terms holds where its equation holds and its own variable has
a value of its kind. -/
theorem holds_expr_of_hard (hfit : c.Fit)
    (hkinds : c.tag.vars.map t.kind = (parts c.request c.relation).map Part.kind)
    (hadmits : (t.kind c.tag.marker).Admits (a c.tag.marker)) (hholds : c.Holds a)
    (hhard : c.request.strength.hard) (herrors : c.request.errors = []) :
    c.relation.Holds (c.expr.eval a) := by
  rw [Constraint.Holds, Constraint.eval_equation, hfit.ownTerms_eq] at hholds
  rw [parts, herrors, List.map_nil, List.append_nil] at hholds hkinds
  rw [Tag.vars] at hholds hkinds
  cases hrelation : c.relation with
  | eq =>
      rw [hrelation, relationParts, equalityParts, if_pos hhard] at hholds hkinds
      have hkind : t.kind c.tag.marker = .constant := (List.cons.inj hkinds).1
      have hvalue := hadmits.2 hkind
      exact (by simpa [Part.coefficient, hvalue] using hholds : c.expr.eval a = 0)
  | le =>
      rw [hrelation, relationParts, inequalityParts, if_pos hhard] at hholds hkinds
      have hkind : t.kind c.tag.marker = .slack := (List.cons.inj hkinds).1
      have hvalue := hadmits.1 (by rw [hkind]; rfl)
      have hsum : c.expr.eval a + a c.tag.marker = 0 := by
        simpa [Part.coefficient] using hholds
      exact (by linarith : c.expr.eval a ≤ 0)
  | ge =>
      rw [hrelation, relationParts, inequalityParts, if_pos hhard] at hholds hkinds
      have hkind : t.kind c.tag.marker = .slack := (List.cons.inj hkinds).1
      have hvalue := hadmits.1 (by rw [hkind]; rfl)
      have hsum : c.expr.eval a - a c.tag.marker = 0 := by
        simpa [Part.coefficient, sub_eq_add_neg] using hholds
      exact (by linarith : 0 ≤ c.expr.eval a)

/-- A constraint's marker is not external. -/
theorem kind_marker_ne_external
    (hkinds : c.tag.vars.map t.kind = (parts c.request c.relation).map Part.kind) :
    t.kind c.tag.marker ≠ .external := by
  obtain ⟨p, ps, hparts, -⟩ := Constraint.parts_eq_cons c.request c.relation
  rw [hparts, Tag.vars, List.map_cons, List.map_cons] at hkinds
  rw [(List.cons.inj hkinds).1]
  cases p <;> simp [Part.kind]

/-- In a steady tableau a hard request that is upheld holds at the current values. -/
theorem Steady.holds_of_hard (h : t.Steady) (hc : t.Upholds c)
    (hhard : c.request.strength.hard) (herrors : c.request.errors = []) :
    c.relation.Holds (c.request.expr.eval t.value) := by
  have hmarker : t.vars.isLive c.tag.marker := hc.isLive _ List.mem_cons_self
  rw [← hc.suits.eval_expr fun _ _ hy hf => (value_of_isFolded hy hf).symm]
  exact holds_expr_of_hard hc.fit hc.suits.kinds
    (h.admits_value hmarker (kind_marker_ne_external hc.suits.kinds))
    (hc.holds _ h.satisfies_value) hhard herrors

/-! ### Variables that stay and variables that are new -/

/-- A tableau **continues** another if it has that one's variables, with the values of those that
are folded, and if further ones are not pinned and those that are constants are zero. -/
structure Continues (t t' : Tableau Rat Rat) : Prop where
  old : ∀ v y, t.vars.get? v = some y → ∃ z, t'.vars.get? v = some z ∧ z.kind = y.kind ∧
    z.pinned = y.pinned ∧ (y.isFolded = true → z.computed = y.computed)
  new : ∀ v z, t'.vars.get? v = some z → (∃ y, t.vars.get? v = some y) ∨
    (z.pinned = false ∧ (z.kind = .constant → z.computed = 0))

/-- A variable that is kept is folded as before. -/
theorem isFolded_congr {y z : Variable Rat} (hkind : z.kind = y.kind)
    (hpinned : z.pinned = y.pinned) : z.isFolded = y.isFolded := by
  rw [Variable.isFolded, Variable.isFolded, hkind, hpinned]

/-- Continuing carries over two changes. -/
theorem Continues.trans (h : t.Continues t') (h' : t'.Continues t'') : t.Continues t'' := by
  refine ⟨fun v x hx => ?_, fun v z hz => ?_⟩
  · obtain ⟨y, hy, hkind, hpin, hcomputed⟩ := h.old v x hx
    obtain ⟨z, hz, hkind', hpin', hcomputed'⟩ := h'.old v y hy
    refine ⟨z, hz, hkind'.trans hkind, hpin'.trans hpin, fun hf => ?_⟩
    exact (hcomputed' ((isFolded_congr hkind hpin).trans hf)).trans (hcomputed hf)
  · rcases h'.new v z hz with ⟨y, hy⟩ | hnew
    · rcases h.new v y hy with hold | ⟨hunpinned, hzero⟩
      · exact .inl hold
      · obtain ⟨z', hz', hkind, hpin, hcomputed⟩ := h'.old v y hy
        obtain rfl := Option.some.inj (hz.symm.trans hz')
        refine .inr ⟨hpin.trans hunpinned, fun hk => ?_⟩
        have hconstant := hkind.symm.trans hk
        rw [hcomputed (by simp [Variable.isFolded, hconstant]), hzero hconstant]
    · exact .inr hnew

/-- A live variable stays of its kind. -/
theorem Continues.kind_eq (h : t.Continues t') (hlive : t.vars.isLive v) :
    t'.kind v = t.kind v := by
  obtain ⟨y, hy⟩ := VariablePool.isLive_iff.mp hlive
  obtain ⟨z, hz, hkind, -⟩ := h.old v y hy
  rw [kind_of_get? hz, kind_of_get? hy, hkind]

/-- Markers are still markers. -/
theorem Continues.kind_eq_constant (h : t.Continues t') (hk : t.kind v = .constant) :
    t'.kind v = .constant := by
  rw [← hk]
  refine h.kind_eq ?_
  by_contra hdead
  rw [VariablePool.isLive_iff, ← Option.isSome_iff_exists, Option.not_isSome_iff_eq_none]
    at hdead
  rw [kind, hdead] at hk
  exact absurd hk (by simp)

/-- A variable that is fixed stays so while solutions are lost, unless it is freed. -/
theorem Fixes.mono (h : t.Fixes v x) (hcontinues : t.Continues t')
    (hsat : ∀ a, t'.Satisfies a → t.Satisfies a) (hfree : t.FreeOf v → t'.FreeOf v) :
    t'.Fixes v x := by
  refine h.imp hfree fun hfixed a ha hzero => hfixed a (hsat a ha) fun w hw => ?_
  exact hzero w (hcontinues.kind_eq_constant hw)

/-- What suits a constraint still does after it was continued. -/
theorem Suits.continues (h : t.Suits c) (hcontinues : t.Continues t')
    (hlive : ∀ v ∈ c.tag.vars, t.vars.isLive v) : t'.Suits c := by
  refine ⟨fun v hv q hq => ?_, ?_⟩
  · obtain ⟨y, hy, hf, rfl⟩ := h.values v hv q hq
    obtain ⟨z, hz, hkind, hpin, hcomputed⟩ := hcontinues.old v y hy
    exact ⟨z, hz, (isFolded_congr hkind hpin).trans hf, hcomputed hf⟩
  · rw [← h.kinds]
    exact List.map_congr_left fun v hv => hcontinues.kind_eq (hlive v hv)

/-- A live variable stays live. -/
theorem Continues.isLive (h : t.Continues t') (hlive : t.vars.isLive v) : t'.vars.isLive v := by
  obtain ⟨y, hy⟩ := VariablePool.isLive_iff.mp hlive
  obtain ⟨z, hz, -⟩ := h.old v y hy
  exact VariablePool.isLive_iff.mpr ⟨z, hz⟩

/-- What is upheld stays so while the tableau is continued and no solution is new. -/
theorem Upholds.continues (h : t.Upholds c) (hcontinues : t.Continues t')
    (hsat : ∀ a, t'.Satisfies a → t.Satisfies a) : t'.Upholds c :=
  ⟨h.fit, fun v hv => hcontinues.isLive (h.isLive v hv), h.suits.continues hcontinues h.isLive,
    fun a ha => h.holds a (hsat a ha)⟩

/-- A tableau stays steady if it is continued, if no solution is new, if variables that were free
and pinned stay free, and if it suits the constraints that are new: a variable that matters was
there before, and is folded as it was. -/
theorem Steady.of_continues (h : t.Steady) (hfaithful : t'.Faithful)
    (hfeasible : t'.BasicFeasible) (hcontinues : t.Continues t')
    (hsat : ∀ a, t'.Satisfies a → t.Satisfies a)
    (hfree : ∀ v y, t.vars.get? v = some y → y.pinned = true → t.FreeOf v → t'.FreeOf v)
    (hcons : ∀ id c, t'.constraints.get? id = some c →
      t.constraints.get? id = some c ∨ t'.Suits c) : t'.Steady := by
  have hold : ∀ v z, t'.vars.get? v = some z → z.pinned = true → ∃ y,
      t.vars.get? v = some y ∧ z.kind = y.kind ∧ y.pinned = true ∧ z.computed = y.computed := by
    intro v z hz hpinned
    rcases hcontinues.new v z hz with ⟨y, hy⟩ | ⟨hunpinned, -⟩
    · obtain ⟨z', hz', hkind, hpin, hcomputed⟩ := hcontinues.old v y hy
      rw [hz] at hz'
      obtain rfl := Option.some.inj hz'
      rw [hpinned] at hpin
      exact ⟨y, hy, hkind, hpin.symm, hcomputed (by rw [Variable.isFolded, ← hpin]; rfl)⟩
    · rw [hpinned] at hunpinned
      exact absurd hunpinned (by simp)
  refine ⟨hfaithful, hfeasible, ?_, ?_, ?_, ?_⟩
  · intro v z hz hk
    rcases hcontinues.new v z hz with ⟨y, hy⟩ | ⟨-, hcomputed⟩
    · obtain ⟨z', hz', hkind, -, hcomputed⟩ := hcontinues.old v y hy
      rw [hz] at hz'
      obtain rfl := Option.some.inj hz'
      rw [hkind] at hk
      rw [hcomputed (by simp [Variable.isFolded, hk]), h.constant v y hy hk]
    · exact hcomputed hk
  · intro v z hz hpinned
    obtain ⟨y, hy, hkind, hpin, -⟩ := hold v z hz hpinned
    rw [hkind, h.external v y hy hpin]
  · intro v z hz hpinned
    obtain ⟨y, hy, -, hpin, hcomputed⟩ := hold v z hz hpinned
    rw [hcomputed]
    exact (h.fixed v y hy hpin).mono hcontinues hsat (hfree v y hy hpin)
  · intro id c hc
    rcases hcons id c hc with hc | hsuits
    · exact (h.suits id c hc).continues hcontinues
        (h.faithful.wellFormed.owned.isLive id c hc)
    · exact hsuits

/-- A tableau stays steady if it is continued with the same constraints and solutions. -/
theorem Steady.of_satisfies_iff (h : t.Steady) (hfaithful : t'.Faithful)
    (hfeasible : t'.BasicFeasible) (hcontinues : t.Continues t')
    (hcons : t'.constraints = t.constraints) (hsat : ∀ a, t'.Satisfies a ↔ t.Satisfies a) :
    t'.Steady := by
  refine h.of_continues hfaithful hfeasible hcontinues (fun a => (hsat a).mp) ?_ ?_
  · exact fun v _ _ _ hv a x ha => (hsat _).mpr (hv a x ((hsat a).mp ha))
  · exact fun id c hc => .inl (hcons ▸ hc)

/-- A tableau with the same variables continues the other. -/
theorem SameVars.continues (h : t.SameVars t') : t.Continues t' := by
  refine ⟨fun v y hy => ?_, fun v z hz => ?_⟩
  · have hkeeps : Keeps [] t t' := h.keeps
    obtain ⟨z, hz, hkind, hpin, hcomputed⟩ := hkeeps.get?_eq_some List.not_mem_nil hy
    exact ⟨z, hz, hkind, hpin, fun _ => hcomputed⟩
  · have hlive := (h.isLive_iff v).mp (VariablePool.isLive_iff.mpr ⟨z, hz⟩)
    exact .inl (VariablePool.isLive_iff.mp hlive)

/-- Counting keeps a tableau steady. -/
theorem Steady.count (h : t.Steady) (f : Counters → Counters) : (t.count f).Steady := by
  have hsat : ∀ a, (t.count f).Satisfies a ↔ t.Satisfies a :=
    fun _ => satisfies_congr (rows_count t f)
  have hcons := constraints_count t f
  refine h.of_satisfies_iff ?_ (h.feasible.count f) (SameVars.count f).continues hcons hsat
  exact h.faithful.of_satisfies_iff (h.faithful.wellFormed.count f)
    (h.faithful.normal.of_rows (rows_count t f)) hcons (entered_count t f) hsat

/-- **Exchanges** keep a tableau steady. -/
theorem Steady.minimise (h : t.Steady) (o : Objective) : (t.minimise o).2.Steady := by
  have hwell := h.faithful.wellFormed
  obtain ⟨hnormal, hsat⟩ := hwell.linked.satisfies_minimise h.faithful.normal o
  have hcons := constraints_minimise o t
  refine h.of_satisfies_iff ?_ (h.feasible.minimise hwell.linked h.faithful.normal o)
    (hwell.linked.sameVars_minimise o).continues hcons hsat
  exact h.faithful.of_satisfies_iff (hwell.minimise o) hnormal hcons (entered_minimise o t) hsat

/-- Settling the values changes none by which rows take variables in. -/
theorem continues_settle (t : Tableau Rat Rat) : t.Continues t.settle := by
  have hget : ∀ v, t.settle.vars.get? v = _ := VariablePool.get?_map t.vars _
  refine ⟨fun v y hy => ⟨_, by rw [hget, hy]; rfl, ?_, ?_, fun hf => ?_⟩, fun v z hz => ?_⟩
  · dsimp only
    split <;> rfl
  · dsimp only
    split <;> rfl
  · dsimp only
    rw [if_neg]
    rintro ⟨hkind, hpinned⟩
    rw [Variable.isFolded, hkind, hpinned] at hf
    exact absurd hf (by simp)
  · rw [hget] at hz
    obtain ⟨y, hy, -⟩ := Option.map_eq_some_iff.mp hz
    exact .inl ⟨y, hy⟩

/-- Settling values keeps a tableau steady. -/
theorem Steady.settle (h : t.Steady) : t.settle.Steady :=
  h.of_satisfies_iff (h.faithful.of_satisfies_iff h.faithful.wellFormed.settle
      h.faithful.normal rfl rfl fun _ => Iff.rfl)
    (h.feasible.of_rows h.faithful.wellFormed.linked (fun _ hr => hr)
      fun _ => t.continues_settle.kind_eq) t.continues_settle rfl fun _ => Iff.rfl

/-- A new variable is not pinned and stands at zero. -/
theorem continues_addVariable (t : Tableau Rat Rat) (kind : Kind) (stem : Option String) :
    t.Continues (t.addVariable kind stem).2 := by
  obtain ⟨name, hget⟩ := t.get?_addVariable kind stem
  refine ⟨fun v y hy => ⟨y, ?_, rfl, rfl, fun _ => rfl⟩, fun v z hz => ?_⟩
  · have hv : v ≠ (t.addVariable kind stem).1 := by
      rintro rfl
      rw [t.get?_addVariable_fst kind stem] at hy
      exact absurd hy (by simp)
    rw [hget, if_neg hv, hy]
  · rw [hget] at hz
    by_cases hv : v = (t.addVariable kind stem).1
    · rw [if_pos hv] at hz
      obtain rfl := Option.some.inj hz
      exact .inr ⟨rfl, fun _ => rfl⟩
    · rw [if_neg hv] at hz
      exact .inl ⟨z, hz⟩

/-- A new variable keeps a tableau steady. -/
theorem Steady.addVariable (h : t.Steady) (kind : Kind) (stem : Option String) :
    (t.addVariable kind stem).2.Steady := by
  have hwell := h.faithful.wellFormed
  have hrows := rows_addVariable t kind stem
  have hcons := constraints_addVariable t kind stem
  have hcontinues := t.continues_addVariable kind stem
  have hsat : ∀ a, (t.addVariable kind stem).2.Satisfies a ↔ t.Satisfies a :=
    fun _ => satisfies_congr hrows
  refine h.of_satisfies_iff (h.faithful.of_satisfies_iff (hwell.addVariable kind stem)
    (h.faithful.normal.of_rows hrows) hcons (entered_addVariable t kind stem) hsat) ?_ hcontinues
    hcons hsat
  exact h.feasible.of_rows hwell.linked (fun r hr => hrows ▸ hr) fun _ => hcontinues.kind_eq

/-! ### Insertions -/

/-- The variables of a tableau are all in another, where they are the same to constraints. -/
def Within (t t' : Tableau Rat Rat) : Prop :=
  ∀ v z, t'.vars.get? v = some z → ∃ y, t.vars.get? v = some y ∧ z.role = y.role

/-- Being within carries over two changes. -/
theorem Within.trans (h : t.Within t') (h' : t'.Within t'') : t.Within t'' := by
  intro v z hz
  obtain ⟨y, hy, hzy⟩ := h' v z hz
  obtain ⟨x, hx, hyx⟩ := h v y hy
  exact ⟨x, hx, hzy.trans hyx⟩

/-- Where the variables are the same, those of one tableau are all in the other. -/
theorem SameVars.within (h : t.SameVars t') : t.Within t' := by
  intro v z hz
  have hcore := h.core_eq v
  rw [hz, Option.map_some] at hcore
  obtain ⟨y, hy, hyz⟩ := Option.map_eq_some_iff.mp hcore.symm
  exact ⟨y, hy, (congrArg Variable.role hyz).symm⟩

/-- Changes that leave the roles of variables keep these all there. -/
theorem within_foldl_modifyVar {f : Variable Rat → Variable Rat}
    (hf : ∀ y, (f y).role = y.role) (ws : List VarId) (t : Tableau Rat Rat) :
    t.Within (ws.foldl (fun t w => t.modifyVar w f) t) := by
  induction ws generalizing t with
  | nil => exact (SameVars.refl t).within
  | cons w ws ih =>
      refine Within.trans (fun v z hz => ?_) (ih (t.modifyVar w f))
      have hget : (t.modifyVar w f).vars.get? v = _ := VariablePool.get?_modify t.vars w f v
      rw [hget] at hz
      by_cases hv : v = w
      · rw [if_pos hv] at hz
        obtain ⟨y, hy, rfl⟩ := Option.map_eq_some_iff.mp hz
        exact ⟨y, hy, hf y⟩
      · rw [if_neg hv] at hz
        exact ⟨z, hz, rfl⟩

/-- The variables that are left after some were discarded were all there. -/
theorem Linked.within_foldl_discard (h : t.Linked none) (vs : List VarId) :
    t.Within (vs.foldl Tableau.discard t) := by
  induction vs generalizing t with
  | nil => exact (SameVars.refl t).within
  | cons w vs ih =>
      refine Within.trans (fun v z hz => ?_) (ih (h.discard w))
      have hget : (t.discard w).vars.get? v = if v = w then none else (t.purge w).vars.get? v :=
        VariablePool.get?_release _ w v
      rw [hget] at hz
      by_cases hv : v = w
      · rw [if_pos hv] at hz
        exact absurd hz (by simp)
      · rw [if_neg hv] at hz
        exact (h.sameVars_purge w).within v z hz

/-- An insertion continues a tableau: what is made for a draft is not pinned and stands at zero, and
placing, entering and discarding make no further variables. -/
theorem WellFormed.continues_insert (h : t.WellFormed) (request : Request Rat)
    (relation : Relation) : t.Continues (t.insert request relation).2 := by
  obtain ⟨-, hkeeps⟩ := h.insert request relation
  have hdrafted := h.linked.draft request relation
  obtain ⟨hplaced, hsame⟩ := Linked.place (hdrafted.placeable h.linked)
  refine ⟨fun v y hy => ?_, ?_⟩
  · obtain ⟨z, hz, hkind, hpin, hcomputed⟩ := hkeeps.get?_eq_some List.not_mem_nil hy
    exact ⟨z, hz, hkind, hpin, fun _ => hcomputed⟩
  have hnew : ∀ t', (t.draft request relation).2.Within t' → ∀ v z, t'.vars.get? v = some z →
      (∃ y, t.vars.get? v = some y) ∨
        (z.pinned = false ∧ (z.kind = .constant → z.computed = 0)) := by
    intro t' hwithin v z hz
    obtain ⟨y, hy, hrole⟩ := hwithin v z hz
    simp only [Variable.role, Prod.mk.injEq] at hrole
    by_cases hv : v ∈ (t.draft request relation).1.constraint.tag.vars
    · obtain ⟨y', hy', hpinned, hcomputed, -⟩ := hdrafted.joined.new v hv
      rw [hy] at hy'
      obtain rfl := Option.some.inj hy'
      exact .inr ⟨hrole.2.1.trans hpinned, fun _ => hrole.2.2.trans hcomputed⟩
    · rw [hdrafted.joined.old v hv] at hy
      exact .inl ⟨y, hy⟩
  refine insert_cases (p := fun result => ∀ v z, result.2.vars.get? v = some z →
    (∃ y, t.vars.get? v = some y) ∨
      (z.pinned = false ∧ (z.kind = .constant → z.computed = 0))) ?_ ?_ ?_ ?_
  · exact fun _ _ _ v z hz => .inl ⟨z, hz⟩
  · exact fun _ _ _ => hnew _ hsame.within
  · intro _ _
    refine hnew _ (hsame.within.trans ?_)
    have hfold := within_foldl_modifyVar (f := Variable.retainFold) (fun _ => rfl)
      (t.draft request relation).1.constraint.tag.folded (t.placed request relation).2
    refine hfold.trans (SameVars.within (SameVars.of_eq ?_))
    exact vars_count _ _
  · intro _ f _ _
    exact hnew _ (hsame.within.trans ((hplaced.within_foldl_discard _).trans
      (SameVars.count f).within))

/-- The variables of an accepted constraint are of the kinds of its parts. -/
theorem Linked.kinds_insert (h : t.Linked none) (request : Request Rat) (relation : Relation) :
    ∀ id, (t.insert request relation).1 = .ok id →
      (t.draft request relation).1.constraint.tag.vars.map (t.insert request relation).2.kind =
        (parts request relation).map Part.kind := by
  have hdrafted := h.draft request relation
  obtain ⟨hplaced, hsame⟩ := Linked.place (hdrafted.placeable h)
  refine insert_cases (p := fun result => ∀ id, result.1 = .ok id →
    (t.draft request relation).1.constraint.tag.vars.map result.2.kind =
      (parts request relation).map Part.kind) ?_ ?_ ?_ ?_
  · exact fun _ _ _ _ hok => absurd hok (by simp)
  · exact fun _ _ _ _ hok => absurd hok (by simp)
  · intro _ _ _ _
    obtain ⟨-, hkept⟩ := hplaced.register (t.draft request relation).1.constraint
    rw [← hdrafted.joined.kinds]
    refine List.map_congr_left fun v hv => ?_
    have hlive := (hdrafted.joined.isLive_iff v).mpr (.inl hv)
    exact (hkept.kind_eq List.not_mem_nil ((hsame.isLive_iff v).mpr hlive)).trans
      (hsame.kind_eq v)
  · exact fun _ _ _ _ _ hok => absurd hok (by simp)

/-- What a constraint took in as a number does not matter to its equation. -/
theorem States.holds_update {request : Request Rat} {relation : Relation}
    (h : t.States request relation c) (hfit : c.Fit) {y : Variable Rat}
    (hy : t.vars.get? v = some y) (hf : y.isFolded = true) (x : Rat) :
    c.Holds (update a v x) ↔ c.Holds a := by
  refine hfit.holds_congr (fun w hw hnone => ?_) fun w hw => ?_
  · rw [update_of_ne]
    rintro rfl
    rw [h.values_eq w (h.request_eq ▸ hw), hy, Option.filter_some, if_pos hf] at hnone
    exact absurd hnone (by simp)
  · rw [update_of_ne]
    rintro rfl
    exact h.fresh w hw (VariablePool.isLive_iff.mpr ⟨y, hy⟩)

/-- A variable that is folded and free stays free: the new constraint has it as a number. -/
theorem Linked.freeOf_insert (h : t.Linked none) (hn : t.Normal) {y : Variable Rat}
    (hy : t.vars.get? v = some y) (hf : y.isFolded = true) (hfree : t.FreeOf v)
    (request : Request Rat) (relation : Relation) :
    (t.insert request relation).2.FreeOf v := by
  obtain ⟨-, haccepted, hrefused⟩ := h.satisfies_insert hn request relation
  intro a x ha
  cases hresult : (t.insert request relation).1 with
  | error fault =>
      have hsat := hrefused fault hresult
      exact (hsat _).mpr (hfree a x ((hsat a).mp ha))
  | ok id =>
      have hsat := haccepted id hresult
      obtain ⟨-, hlive, -⟩ := (h.constraints_insert request relation).1 id hresult
      obtain ⟨hold, hholds⟩ := (hsat a).mp ha
      have hstates := h.states_draft request relation
      exact (hsat _).mpr ⟨hfree a x hold,
        (hstates.holds_update (h.stated hlive relation).fit hy hf x).mpr hholds⟩

/-- An **insertion** keeps a tableau steady, accepted or not. -/
theorem Steady.insert (h : t.Steady) (request : Request Rat) (relation : Relation) :
    (t.insert request relation).2.Steady := by
  have hwell := h.faithful.wellFormed
  have hcontinues := hwell.continues_insert request relation
  have hfaithful := h.faithful.insert request relation
  have hfeasible := h.feasible.insert hwell.linked h.faithful.normal request relation
  obtain ⟨-, haccepted, hrefused⟩ :=
    hwell.linked.satisfies_insert h.faithful.normal request relation
  obtain ⟨hentered, hkept⟩ := hwell.linked.constraints_insert request relation
  cases hresult : (t.insert request relation).1 with
  | error fault =>
      exact h.of_satisfies_iff hfaithful hfeasible hcontinues (hkept fault hresult)
        (hrefused fault hresult)
  | ok id =>
      obtain ⟨-, hlive, hcons⟩ := hentered id hresult
      have hstates := hwell.linked.states_draft request relation
      have hsat := haccepted id hresult
      refine h.of_continues hfaithful hfeasible hcontinues (fun a ha => ((hsat a).mp ha).1) ?_ ?_
      · intro v y hy hpinned hfree
        have hf : y.isFolded = true := by
          rw [Variable.isFolded, hpinned, Bool.true_or]
        exact hwell.linked.freeOf_insert h.faithful.normal hy hf hfree request relation
      · intro id' c hc
        rw [hcons] at hc
        obtain ⟨-, rfl⟩ | ⟨-, hc⟩ := Assoc.get?_insert_eq_some_iff.mp hc
        · refine .inr ⟨fun v hv q hq => ?_, ?_⟩
          · rw [hstates.values_eq v (hstates.request_eq ▸ hv)] at hq
            obtain ⟨y, hy, rfl⟩ := Option.map_eq_some_iff.mp hq
            obtain ⟨hy, hf⟩ := Option.filter_eq_some_iff.mp hy
            obtain ⟨z, hz, hkind, hpin, hcomputed⟩ := hcontinues.old v y hy
            exact ⟨z, hz, (isFolded_congr hkind hpin).trans hf, hcomputed hf⟩
          · rw [hwell.linked.kinds_insert request relation id hresult, hstates.request_eq,
              hstates.relation_eq]
        · exact .inl hc

/-! ### Pins -/

/-- Pinning a variable that is not folded changes no number that a constraint took in. -/
theorem Suits.pin (h : t.Suits c) {y : Variable Rat} (hy : t.vars.get? v = some y)
    (hf : y.isFolded = false) : (t.modifyVar v (·.pin x)).Suits c := by
  have hget : ∀ w, (t.modifyVar v (·.pin x)).vars.get? w = _ :=
    VariablePool.get?_modify t.vars v (·.pin x)
  refine ⟨fun w hw q hq => ?_, ?_⟩
  · obtain ⟨z, hz, hzf, hcomputed⟩ := h.values w hw q hq
    have hwv : w ≠ v := by
      rintro rfl
      obtain rfl := Option.some.inj (hy.symm.trans hz)
      rw [hf] at hzf
      exact absurd hzf (by simp)
    exact ⟨z, by rw [hget, if_neg hwv, hz], hzf, hcomputed⟩
  · rw [← h.kinds]
    exact List.map_congr_left fun w _ => kind_modifyVar t v (f := (·.pin x)) (fun _ => rfl) w

/-- Pinning a variable at the value that the solutions fix keeps a tableau steady: the rows are the
same, and so are the markers. -/
theorem Steady.pin (h : t.Steady) {y : Variable Rat} (hy : t.vars.get? v = some y)
    (hk : y.kind = .external) (hpinned : y.pinned = false) (hfixed : t.Fixes v x) :
    (t.modifyVar v (·.pin x)).Steady := by
  have hget : ∀ w, (t.modifyVar v (·.pin x)).vars.get? w =
      if w = v then (t.vars.get? w).map (·.pin x) else t.vars.get? w :=
    VariablePool.get?_modify t.vars v (·.pin x)
  have hpin : (t.modifyVar v (·.pin x)).vars.get? v = some (y.pin x) := by
    rw [hget, if_pos rfl, hy, Option.map_some]
  have hunfolded : y.isFolded = false := by
    rw [Variable.isFolded, hpinned, hk]
    rfl
  have hkind : ∀ w, (t.modifyVar v (·.pin x)).kind w = t.kind w :=
    kind_modifyVar t v fun _ => rfl
  have hfixes : ∀ w q, t.Fixes w q → (t.modifyVar v (·.pin x)).Fixes w q := by
    intro w q hw
    refine hw.imp (fun hfree => hfree) fun hall a ha hzero => hall a ha fun u hu => hzero u ?_
    rw [hkind, hu]
  refine ⟨h.faithful.of_satisfies_iff (h.faithful.wellFormed.modifyVar v fun _ => rfl)
    h.faithful.normal rfl rfl fun _ => Iff.rfl, ?_, ?_, ?_, ?_, fun id c hc => ?_⟩
  · exact h.feasible.of_rows h.faithful.wellFormed.linked (fun _ hr => hr) fun w _ => hkind w
  · intro w z hz hconstant
    rcases eq_or_ne w v with rfl | hw
    · obtain rfl := Option.some.inj (hpin.symm.trans hz)
      exact absurd (hk.symm.trans hconstant) (by simp)
    · rw [hget, if_neg hw] at hz
      exact h.constant w z hz hconstant
  · intro w z hz hp
    rcases eq_or_ne w v with rfl | hw
    · obtain rfl := Option.some.inj (hpin.symm.trans hz)
      exact hk
    · rw [hget, if_neg hw] at hz
      exact h.external w z hz hp
  · intro w z hz hp
    rcases eq_or_ne w v with rfl | hw
    · obtain rfl := Option.some.inj (hpin.symm.trans hz)
      exact hfixes w x hfixed
    · rw [hget, if_neg hw] at hz
      exact hfixes w _ (h.fixed w z hz hp)
  · exact (h.suits id c hc).pin hy hunfolded

/-- The request for a position says that the variable has the value. -/
theorem pinRequest_expr (v : VarId) (x : Rat) :
    (Solver.pinRequest v x : Request Rat).expr.terms = [(v, 1)] ∧
      (Solver.pinRequest v x : Request Rat).expr.constant = -x :=
  ⟨rfl, zero_add (-x)⟩

/-- Where the marker of a position is zero, its variable has the value. -/
theorem eq_of_holds_pinRequest (hfit : c.Fit) (hrequest : c.request = Solver.pinRequest v x)
    (hrelation : c.relation = .eq) (hnone : c.values.get? v = none) (hholds : c.Holds a)
    (hmarker : a c.tag.marker = 0) : a v = x := by
  obtain ⟨hterms, hconst⟩ := pinRequest_expr v x
  have hresolve : c.resolve a v = a v := by
    rw [Constraint.resolve, hnone]
    rfl
  have hparts : parts (Solver.pinRequest v x : Request Rat) .eq = [.marker 1] := rfl
  rw [Constraint.Holds, Constraint.eval_equation, Constraint.eval_expr, hfit.ownTerms_eq,
    hrequest, hrelation, hterms, hconst, hparts, Tag.vars] at hholds
  simp only [List.map_cons, List.map_nil, List.zip_cons_cons, List.zip_nil_right, List.sum_cons,
    List.sum_nil, Part.coefficient, hresolve, hmarker] at hholds
  linarith

/-- A request for a position has a variable that is not folded as a term. -/
theorem States.get?_values_pinRequest (h : t.States (Solver.pinRequest v x) .eq c)
    {y : Variable Rat} (hy : t.vars.get? v = some y) (hf : y.isFolded = false) :
    c.values.get? v = none := by
  have hmem : v ∈ (Solver.pinRequest v x : Request Rat).expr.vars := by
    rw [LinExpr.vars, (pinRequest_expr v x).1]
    exact List.mem_cons_self
  rw [h.values_eq v hmem, hy, Option.filter_some, if_neg (by simp [hf])]
  rfl

/-- An accepted position fixes a variable that is not folded: the marker of the constraint is zero,
and the variable is not a number in it. -/
theorem Steady.fixes_of_accepted (h : t.Steady) {y : Variable Rat}
    (hy : t.vars.get? v = some y) (hf : y.isFolded = false)
    (hid : (t.insert (Solver.pinRequest v x) .eq).1 = .ok id) :
    (t.insert (Solver.pinRequest v x) .eq).2.Fixes v x := by
  have hlinked := h.faithful.wellFormed.linked
  obtain ⟨-, haccepted, -⟩ :=
    hlinked.satisfies_insert h.faithful.normal (Solver.pinRequest v x) .eq
  obtain ⟨-, hlive, -⟩ := (hlinked.constraints_insert (Solver.pinRequest v x) .eq).1 id hid
  have hstates := hlinked.states_draft (Solver.pinRequest v x) .eq
  have hkinds := hlinked.kinds_insert (Solver.pinRequest v x) .eq id hid
  exact .inr fun a ha hzero => eq_of_holds_pinRequest (hlinked.stated hlive .eq).fit
    hstates.request_eq hstates.relation_eq (hstates.get?_values_pinRequest hy hf)
    ((haccepted id hid a).mp ha).2 (hzero _ (List.cons.inj hkinds).1)

end Tableau

/-! ### Solvers -/

namespace Solver

variable {s s' : Solver Rat Rat} {v : VarId} {x : Rat}
  {accepted : List (Request Rat × Relation)}

/-- What an additive run keeps: the tableau is steady, pinned variables are noted, and every
request that was accepted is that of a constraint which is upheld. -/
structure Standing (s : Solver Rat Rat) (accepted : List (Request Rat × Relation)) : Prop where
  steady : s.tableau.Steady
  pinned : ∀ v y, s.tableau.vars.get? v = some y → y.pinned = true → s.isPinned v = true
  accepted : ∀ x ∈ accepted, ∃ c, s.tableau.Upholds c ∧ c.request = x.1 ∧ c.relation = x.2

/-- In an empty solver nothing was accepted. -/
theorem standing_empty (settings : Settings) : (empty settings).Standing [] := by
  have hwell : (empty settings : Solver Rat Rat).tableau.WellFormed :=
    Tableau.WellFormed.of_nothing rfl rfl rfl (fun _ => rfl) fun _ => rfl
  have hvars : ∀ v, (empty settings : Solver Rat Rat).tableau.vars.get? v = none := fun _ => rfl
  have hauthored : (empty settings : Solver Rat Rat).tableau.Authored fun _ => False :=
    Tableau.Authored.of_nothing hwell rfl rfl fun _ => not_false
  refine ⟨⟨hauthored.faithful, fun r hr => absurd hr List.not_mem_nil, ?_, ?_, ?_, ?_⟩, ?_, ?_⟩
  · exact fun v y hy => absurd ((hvars v).symm.trans hy) (by simp)
  · exact fun v y hy => absurd ((hvars v).symm.trans hy) (by simp)
  · exact fun v y hy => absurd ((hvars v).symm.trans hy) (by simp)
  · exact fun id c hc => absurd hc (by simp [empty, Tableau.empty, Assoc.get?])
  · exact fun v y hy => absurd ((hvars v).symm.trans hy) (by simp)
  · exact fun x hx => absurd hx List.not_mem_nil

/-- It is enough that the tableau is continued and that no solution is new. -/
theorem Standing.of_continues (h : s.Standing accepted) (hsteady : s'.tableau.Steady)
    (hcontinues : s.tableau.Continues s'.tableau) (hpins : s'.pins = s.pins)
    (hsat : ∀ a, s'.tableau.Satisfies a → s.tableau.Satisfies a) : s'.Standing accepted := by
  refine ⟨hsteady, fun v z hz hp => ?_, fun x hx => ?_⟩
  · rcases hcontinues.new v z hz with ⟨y, hy⟩ | ⟨hunpinned, -⟩
    · obtain ⟨z', hz', -, hpin, -⟩ := hcontinues.old v y hy
      obtain rfl := Option.some.inj (hz.symm.trans hz')
      rw [isPinned, hpins]
      exact h.pinned v y hy (hpin.symm.trans hp)
    · rw [hp] at hunpinned
      exact absurd hunpinned (by simp)
  · obtain ⟨c, hc, heq⟩ := h.accepted x hx
    exact ⟨c, hc.continues hcontinues hsat, heq⟩

/-- **Adding** a request keeps what an additive run keeps, and an accepted one is noted. -/
theorem Standing.add (h : s.Standing accepted) (request : Request Rat) (relation : Relation) :
    (s.add request relation).2.Standing accepted ∧
      ∀ id, (s.add request relation).1 = .ok id →
        (s.add request relation).2.Standing ((request, relation) :: accepted) := by
  obtain ⟨htableau, hpins, -, houtcome⟩ := s.tableau_add request relation
  have hwell := h.steady.faithful.wellFormed
  obtain ⟨-, haccepted, hrefused⟩ :=
    hwell.linked.satisfies_insert h.steady.faithful.normal request relation
  have hsteady : (s.add request relation).2.tableau.Steady :=
    htableau.symm ▸ h.steady.insert request relation
  have hcontinues : s.tableau.Continues (s.add request relation).2.tableau :=
    htableau.symm ▸ hwell.continues_insert request relation
  have hsat : ∀ a, (s.add request relation).2.tableau.Satisfies a → s.tableau.Satisfies a := by
    intro a ha
    rw [htableau] at ha
    cases hresult : (s.tableau.insert request relation).1 with
    | error fault => exact (hrefused fault hresult a).mp ha
    | ok id => exact ((haccepted id hresult a).mp ha).1
  have hadded := h.of_continues hsteady hcontinues hpins hsat
  refine ⟨hadded, fun id hid => ⟨hadded.steady, hadded.pinned, fun x hx => ?_⟩⟩
  rcases List.mem_cons.mp hx with rfl | hx
  · rw [houtcome] at hid
    obtain ⟨-, -, hinserted⟩ := (hwell.linked.constraints_insert request relation).1 id hid
    have hstates := hwell.linked.states_draft request relation
    have hnew : (s.add request relation).2.tableau.constraints.get? id =
        some (s.tableau.draft request relation).1.constraint := by
      rw [htableau, hinserted, Assoc.get?_insert, if_pos rfl]
    exact ⟨_, hsteady.upholds hnew, hstates.request_eq, hstates.relation_eq⟩
  · exact hadded.accepted x hx

/-- Noting a pin at a value that the solutions fix. -/
theorem Standing.notePin (h : s.Standing accepted) {y : Variable Rat}
    (hy : s.tableau.vars.get? v = some y) (hk : y.kind = .external) (hp : y.pinned = false)
    (hfixed : s.tableau.Fixes v x) (hidden : Option ConstraintId) :
    (s.notePin v x hidden).Standing accepted := by
  have hsteady := h.steady.pin hy hk hp hfixed
  refine ⟨hsteady, fun w z hz hpinned => ?_, fun r hr => ?_⟩
  · have hget : (s.notePin v x hidden).tableau.vars.get? w = _ :=
      VariablePool.get?_modify s.tableau.vars v (·.pin x) w
    refine Assoc.contains_iff.mpr ((Assoc.mem_keys_insert _ _ _ _).mpr ?_)
    rcases eq_or_ne w v with rfl | hw
    · exact .inl rfl
    · rw [hget, if_neg hw] at hz
      exact .inr (Assoc.contains_iff.mp (h.pinned w z hz hpinned))
  · obtain ⟨c, hc, heq⟩ := h.accepted r hr
    have hunfolded : y.isFolded = false := by
      rw [Variable.isFolded, hp, hk]
      rfl
    have hlive : ∀ w ∈ c.tag.vars, (s.notePin v x hidden).tableau.vars.isLive w :=
      fun w hw => (Tableau.isLive_modifyVar s.tableau v _ w).mpr (hc.isLive w hw)
    exact ⟨c, ⟨hc.fit, hlive, hc.suits.pin hy hunfolded, hc.holds⟩, heq⟩

/-- A variable of which the tableau does not speak is free. -/
theorem freeOf_of_not_isReferenced (h : s.tableau.Linked none)
    (hk : s.tableau.kind v ≠ .constant) (hv : s.isReferenced v = false) :
    s.tableau.FreeOf v := by
  rw [isReferenced] at hv
  have hboth : (s.tableau.definition? v).isSome = false ∧ (s.tableau.refs v).isEmpty = true := by
    simpa [hk] using hv
  refine Tableau.freeOf_of_notMem (h.definition?_eq_none_iff.mp ?_) fun r hr hmem => ?_
  · exact Option.not_isSome_iff_eq_none.mp (by simp [hboth.1])
  · have hid : r.id ∈ s.tableau.refs v := h.mem_refs.mpr ⟨r, hr, rfl, hmem⟩
    rw [List.isEmpty_iff.mp hboth.2] at hid
    exact absurd hid List.not_mem_nil

/-- Pinning by a hidden constraint, or without one where the tableau does not speak of the
variable. -/
theorem Standing.attachPin (h : s.Standing accepted) {y : Variable Rat}
    (hy : s.tableau.vars.get? v = some y) (hk : y.kind = .external) (hp : y.pinned = false)
    (x : Rat) : (s.attachPin v x).2.Standing accepted := by
  have hwell := h.steady.faithful.wellFormed
  obtain ⟨hadded, -⟩ := h.add (pinRequest v x) .eq
  obtain ⟨htableau, -, -, houtcome⟩ := s.tableau_add (pinRequest v x) .eq
  rw [Solver.attachPin]
  split
  · split
    · rename_i fault s' heq
      rwa [heq] at hadded
    · rename_i id s' heq
      rw [heq] at hadded htableau houtcome
      have hf : y.isFolded = false := by
        rw [Variable.isFolded, hp, hk]
        rfl
      obtain ⟨z, hz, hkind, hpin, -⟩ :=
        (hwell.continues_insert (pinRequest v x) .eq).old v y hy
      have hz' : s'.tableau.vars.get? v = some z := htableau.symm ▸ hz
      have hfixed : s'.tableau.Fixes v x :=
        htableau.symm ▸ h.steady.fixes_of_accepted hy hf houtcome.symm
      exact hadded.notePin hz' (hkind.trans hk) (hpin.trans hp) hfixed (some id)
  · rename_i href
    have hkind : s.tableau.kind v ≠ .constant := by
      rw [Tableau.kind_of_get? hy, hk]
      simp
    have hfree := freeOf_of_not_isReferenced hwell.linked hkind (by simpa using href)
    exact h.notePin hy hk hp (.inl hfree) none

/-- **Pinning** an external variable that is neither pinned nor held keeps what an additive run
keeps, accepted or not. If the variable was taken in as a number, the pin is refused or there is
nothing to do. -/
theorem Standing.pin (h : s.Standing accepted) (hk : s.tableau.kind v = .external)
    (hp : s.isPinned v = false) (hh : s.isHeld v = false) (x : Rat) :
    (s.pin v x).2.Standing accepted := by
  have hwell := h.steady.faithful.wellFormed
  rw [Solver.pin]
  split
  · exact h
  · rename_i y hy
    have hkind : y.kind = .external := (Tableau.kind_of_get? hy).symm.trans hk
    have hunpinned : y.pinned = false := by
      by_contra hne
      rw [h.pinned v y hy (by simpa using hne)] at hp
      exact absurd hp (by simp)
    have hhold : s.holds.get? v = none := Option.not_isSome_iff_eq_none.mp (by
      rw [isHeld, Assoc.contains] at hh
      simp [hh])
    split
    · rw [pinFixed]
      split
      · have hsteady := h.steady.count fun c => { c with infeasible := c.infeasible + 1 }
        have hcontinues := (Tableau.SameVars.count (t := s.tableau)
          fun c => { c with infeasible := c.infeasible + 1 }).continues
        exact h.of_continues hsteady hcontinues rfl fun _ =>
          (Tableau.satisfies_congr (Tableau.rows_count s.tableau _)).mp
      · rw [hhold]
        exact h
    · rw [isPinned] at hp
      rw [if_neg (by simp [hp])]
      exact h.attachPin hy hkind hunpinned x

end Solver

/-! ### Sessions -/

namespace Session

variable {s : Session Rat Rat}

/-- Only an accepted request and a reset change what the caller knows to be accepted. -/
theorem accepted_learn {c : Command Rat Rat} {reply : Except Fault Reply}
    (hreply : ∀ id, reply ≠ .ok (.constraint id)) (hc : c ≠ .reset) :
    (s.learn c reply).accepted = s.accepted := by
  rw [learn.eq_def]
  split
  · rfl
  · rename_i id
    exact absurd rfl (hreply id)
  · split
    · exact absurd rfl hc
    · rfl

/-- An additive command keeps what an additive run keeps. Where no request is accepted, it is enough
to look at the solver. -/
theorem standing_perform (h : s.solver.Standing s.accepted) {c : Command Rat Rat}
    (hc : s.Additive c) : (s.perform c).solver.Standing (s.perform c).accepted := by
  have hsame : (∀ id, (s.solver.perform c).1 ≠ .ok (.constraint id)) → c ≠ .reset →
      (s.solver.perform c).2.Standing s.accepted →
      (s.perform c).solver.Standing (s.perform c).accepted := by
    intro hreply hreset hstanding
    have haccepted : (s.perform c).accepted = s.accepted := accepted_learn hreply hreset
    rw [haccepted]
    exact hstanding
  have hadd : ∀ request relation, c.request? = some (request, relation) → c ≠ .reset →
      s.solver.perform c = ((s.solver.add request relation).1.map .constraint,
        (s.solver.add request relation).2) →
      (s.perform c).solver.Standing (s.perform c).accepted := by
    intro request relation hrequest hreset hperform
    obtain ⟨hadded, hnoted⟩ := h.add request relation
    cases houtcome : (s.solver.add request relation).1 with
    | error fault =>
        rw [houtcome] at hperform
        refine hsame (fun id => ?_) hreset ?_
        · rw [hperform]
          exact fun heq => absurd heq (by simp [Except.map])
        · rw [hperform]
          exact hadded
    | ok id =>
        rw [houtcome] at hperform
        have haccepted : (s.perform c).accepted = (request, relation) :: s.accepted := by
          rw [perform, hperform, Except.map, learn, hrequest]
          rfl
        have hsolver : (s.perform c).solver = (s.solver.add request relation).2 := by
          rw [perform, hperform]
        rw [haccepted, hsolver]
        exact hnoted id houtcome
  cases c with
  | declare kind stem =>
      refine hsame (fun id heq => absurd (Except.ok.inj heq) (by simp)) (by simp) ?_
      exact h.of_continues (h.steady.addVariable kind _)
        (s.solver.tableau.continues_addVariable kind _) rfl fun _ =>
          (Tableau.satisfies_congr (Tableau.rows_addVariable s.solver.tableau kind _)).mp
  | add request relation => exact hadd request relation rfl (by simp) rfl
  | arrange layout strength => exact hadd _ _ rfl (by simp) rfl
  | pin v x =>
      obtain ⟨hk, hp, hh⟩ := hc
      exact hsame (fun id => map_ne_ok (by simp) _) (by simp) (h.pin hk hp hh x)
  | optimize =>
      refine hsame (fun id => map_ne_ok (by simp) _) (by simp) ?_
      have hcount := h.steady.count fun c => { c with optimize := c.optimize + 1 }
      have hcounted := Tableau.SameVars.count (t := s.solver.tableau)
        fun c => { c with optimize := c.optimize + 1 }
      have hwell := hcount.faithful.wellFormed
      have hminimised := hwell.linked.sameVars_minimise .goal
      have hsat := (hwell.linked.satisfies_minimise hcount.faithful.normal .goal).2
      obtain ⟨⟨hsteady, hcontinues, hkept⟩, hpins, -⟩ := s.solver.tableau_optimize
        (p := fun t => t.Steady ∧ s.solver.tableau.Continues t ∧
          ∀ a, t.Satisfies a → s.solver.tableau.Satisfies a)
        ⟨hcount.minimise .goal, (hcounted.trans hminimised).continues, fun a ha =>
          (Tableau.satisfies_congr (Tableau.rows_count _ _)).mp ((hsat a).mp ha)⟩
        fun t ht => ⟨ht.1.settle, ht.2.1.trans t.continues_settle, ht.2.2⟩
      exact h.of_continues hsteady hcontinues hpins hkept
  | remove id => exact absurd hc not_false
  | unpin v => exact absurd hc not_false
  | reset => exact absurd hc not_false
  | resetCounters => exact absurd hc not_false

/-- After every additive run the tableau is steady and every accepted request is upheld. -/
theorem Run.standing (h : s.Run Session.Additive) : s.solver.Standing s.accepted := by
  induction h with
  | start settings => exact Solver.standing_empty settings
  | step _ hc ih => exact standing_perform ih hc

/-- **Hard requests** that were accepted hold at the current values after every additive command,
whether or not the goal is at its minimum. -/
theorem Run.hard_requests_hold (h : s.Run Session.Additive) {request : Request Rat}
    {relation : Relation} (hmem : (request, relation) ∈ s.accepted)
    (hhard : request.strength.hard) (herrors : request.errors = []) :
    relation.Holds (request.expr.eval s.solver.tableau.value) := by
  have hstanding := h.standing
  obtain ⟨c, hc, rfl, rfl⟩ : ∃ c, s.solver.tableau.Upholds c ∧
      c.request = request ∧ c.relation = relation := hstanding.accepted _ hmem
  exact hstanding.steady.holds_of_hard hc hhard herrors

/-- A session in which a variable was pinned, a request accepted and another refused. -/
def pinnedSession : Session Rat Rat :=
  (((((start {}).perform (.declare .external "a")).perform (.declare .external "b")).perform
    (.pin ⟨1⟩ 3)).perform (.arrange (.lower ⟨0⟩ ⟨1⟩ (-1)) .fixed)).perform
    (.arrange (.value ⟨0⟩ 10) .fixed)

/-- The accepted request of the session holds. -/
theorem hard_requests_hold_of_pinnedSession :
    let request : Request Rat := (Layout.lower ⟨0⟩ ⟨1⟩ (-1 : Rat)).request .fixed
    Relation.le.Holds (request.expr.eval pinnedSession.solver.tableau.value) :=
  Run.hard_requests_hold (.step (.step (.step (.step (.step (.start {})
    (by decide +kernel)) (by decide +kernel)) (by decide +kernel)) (by decide +kernel))
    (by decide +kernel)) (by decide +kernel) rfl rfl

end Session

end LexSimplex
