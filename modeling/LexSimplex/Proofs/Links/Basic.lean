import LexSimplex.Proofs.Variables
import LexSimplex.Tableau.Pivot

/-!
# Links

The data of a tableau refer to each other: rows to variables and slots, variables to rows, the
objectives to variables. A tableau is **linked** if all of these references agree. One row may
be out of its slot while it is being rewritten; it is the `out` of `Tableau.Linked`.

Nothing here depends on the arithmetic: links are kept even where numbers overflow or compare
with nothing.

## Main definitions

* `Tableau.IsBasic`, `Tableau.Absent`: where a variable occurs.
* `Tableau.Linked`: the references agree.

## Main results

* `Tableau.Linked.definition?_eq_some_iff`, `Tableau.Linked.mem_referring`: in a linked tableau
  the links say what the rows say.
* `Tableau.Linked.attach`, `.detach`, `.substitute`, `.redefine`, `.discard`: the row
  operations keep the links.
-/

namespace LexSimplex

variable {K Q : Type}

namespace Tableau

/-- A variable is **basic** if a row defines it. -/
def IsBasic (t : Tableau K Q) (v : VarId) : Prop :=
  ∃ r ∈ t.rows, r.basic = v

/-- The objectives of a tableau: its goal, and the measure of a constraint being admitted. -/
def objectives (t : Tableau K Q) : List (Goal K) :=
  t.goal :: t.phaseOne.toList

/-- A variable is **absent** if no row and no objective speaks of it. -/
structure Absent (t : Tableau K Q) (v : VarId) : Prop where
  not_isBasic : ¬t.IsBasic v
  notMem_row : ∀ r ∈ t.rows, v ∉ r.expr.vars
  notMem_goal : ∀ g ∈ t.objectives, v ∉ g.vars

end Tableau

/-- What a variable knows of rows, with its handle. -/
def Variable.links (x : Variable Q) : VarId × Option RowId × List RowId :=
  (x.id, x.definition, x.refs)

/-- The links of a row: its variables are live and distinct, and those that have a term are not
basic. -/
structure Row.LinkedIn (r : Row K) (t : Tableau K Q) : Prop where
  basic_isLive : t.vars.isLive r.basic
  nodup : r.expr.vars.Nodup
  term : ∀ v ∈ r.expr.vars, t.vars.isLive v ∧ ¬t.IsBasic v

/-- The links of a variable: its definition is the row that defines it, and it lists the rows in
which it has a term, each once. -/
structure Variable.LinkedIn (x : Variable Q) (v : VarId) (t : Tableau K Q) : Prop where
  id_eq : x.id = v
  definition_iff : ∀ id, x.definition = some id ↔ ∃ r ∈ t.rows, r.id = id ∧ r.basic = v
  nodup_refs : x.refs.Nodup
  mem_refs_iff : ∀ id, id ∈ x.refs ↔ ∃ r ∈ t.rows, r.id = id ∧ v ∈ r.expr.vars

/-- The links of an objective: its variables are live, distinct and not basic, and none of its
vectors is zero. -/
structure Goal.LinkedIn [Coefficient K] (g : Goal K) (t : Tableau K Q) : Prop where
  tidy : g.Tidy
  term : ∀ v ∈ g.vars, t.vars.isLive v ∧ ¬t.IsBasic v

/-- A tableau is **linked** if its references agree. The live slots are those of the rows, and
that of the row which is out, if there is one. -/
structure Tableau.Linked [Coefficient K] (t : Tableau K Q) (out : Option RowId) : Prop where
  nodup_ids : (t.rows.map Row.id).Nodup
  out_fresh : ∀ id ∈ out, ∀ r ∈ t.rows, r.id ≠ id
  slot_iff : ∀ id : RowId,
    t.rowSlots.isLive id.index ↔ (∃ r ∈ t.rows, r.id = id) ∨ id ∈ out
  row : ∀ r ∈ t.rows, r.LinkedIn t
  var : ∀ v x, t.vars.get? v = some x → x.LinkedIn v t
  goal : ∀ g ∈ t.objectives, g.LinkedIn t

namespace Tableau

variable {t t' : Tableau K Q}

/-- The objectives are the goal and that of phase one. -/
theorem objectives_eq_of (hgoal : t'.goal = t.goal) (hphase : t'.phaseOne = t.phaseOne) :
    t'.objectives = t.objectives := by
  rw [objectives, objectives, hgoal, hphase]

/-- Counting leaves the objectives. -/
@[simp] theorem objectives_count (t : Tableau K Q) (f : Counters → Counters) :
    (t.count f).objectives = t.objectives :=
  objectives_eq_of (goal_count t f) (phaseOne_count t f)

/-- Acquiring a row leaves the objectives. -/
@[simp] theorem objectives_acquireRow (t : Tableau K Q) :
    t.acquireRow.2.objectives = t.objectives :=
  objectives_count _ _

/-- A new variable leaves the objectives. -/
@[simp] theorem objectives_addVariable [Scalar Q] (t : Tableau K Q) (kind : Kind)
    (stem : Option String) : (t.addVariable kind stem).2.objectives = t.objectives :=
  objectives_count _ _

/-- Which variables are basic depends on the rows. -/
theorem isBasic_congr (hrows : t'.rows = t.rows) (v : VarId) :
    t'.IsBasic v ↔ t.IsBasic v := by
  rw [IsBasic, IsBasic, hrows]

/-- Whether a variable is absent depends on the rows and the objectives. -/
theorem Absent.of_eq {v : VarId} (h : t.Absent v) (hrows : t'.rows = t.rows)
    (hobj : t'.objectives = t.objectives) : t'.Absent v := by
  refine ⟨fun hb => h.not_isBasic ((isBasic_congr hrows v).mp hb), ?_, ?_⟩
  · intro r hr
    exact h.notMem_row r (hrows ▸ hr)
  · intro g hg
    exact h.notMem_goal g (hobj ▸ hg)

variable [Coefficient K]

/-! ### Links that carry over -/

/-- With the same rows, what has to be shown of a tableau is that its slots are right, that no
variable was lost which occurs, that the variables kept their links, and that the objectives are
linked. No row speaks of a variable that was not live, and it has no links either. -/
theorem Linked.transfer {out out' : Option RowId} (h : t.Linked out)
    (hrows : t'.rows = t.rows)
    (hfresh : ∀ id ∈ out', ∀ r ∈ t.rows, r.id ≠ id)
    (hslot : ∀ id : RowId,
      t'.rowSlots.isLive id.index ↔ (∃ r ∈ t.rows, r.id = id) ∨ id ∈ out')
    (hlive : ∀ v, t.vars.isLive v → ¬t.Absent v → t'.vars.isLive v)
    (hvar : ∀ v x, t'.vars.get? v = some x →
      (∃ y, t.vars.get? v = some y ∧ x.links = y.links) ∨
        (t.vars.get? v = none ∧ x.links = (v, none, [])))
    (hgoal : ∀ g ∈ t'.objectives,
      g.Tidy ∧ ∀ v ∈ g.vars, t'.vars.isLive v ∧ ¬t.IsBasic v) :
    t'.Linked out' := by
  have hbasic : ∀ v, t'.IsBasic v ↔ t.IsBasic v := isBasic_congr hrows
  refine ⟨hrows ▸ h.nodup_ids, hrows ▸ hfresh, hrows ▸ hslot, ?_, ?_, ?_⟩
  · intro r hr
    have hrt : r ∈ t.rows := hrows ▸ hr
    obtain ⟨hb, hnodup, hterm⟩ := h.row r hrt
    refine ⟨hlive _ hb fun habs => habs.not_isBasic ⟨r, hrt, rfl⟩, hnodup, fun v hv => ?_⟩
    rw [hbasic]
    exact ⟨hlive v (hterm v hv).1 fun habs => habs.notMem_row r hrt hv, (hterm v hv).2⟩
  · intro v x hx
    rcases hvar v x hx with ⟨y, hy, hxy⟩ | ⟨hnone, hxv⟩
    · obtain ⟨hid, hdef, hnodup, hrefs⟩ := h.var v y hy
      simp only [Variable.links, Prod.mk.injEq] at hxy
      obtain ⟨hxid, hxdef, hxrefs⟩ := hxy
      refine ⟨hxid.trans hid, ?_, hxrefs ▸ hnodup, ?_⟩
      · rw [hrows, hxdef]
        exact hdef
      · rw [hrows, hxrefs]
        exact hrefs
    · have hdead : ¬t.vars.isLive v := by
        rw [VariablePool.isLive_iff, hnone]
        simp
      simp only [Variable.links, Prod.mk.injEq] at hxv
      obtain ⟨hxid, hxdef, hxrefs⟩ := hxv
      refine ⟨hxid, fun id => ?_, hxrefs ▸ List.nodup_nil, fun id => ?_⟩
      · rw [hxdef, hrows]
        simp only [reduceCtorEq, false_iff]
        rintro ⟨r, hr, -, rfl⟩
        exact hdead (h.row r hr).basic_isLive
      · rw [hxrefs, hrows]
        simp only [List.not_mem_nil, false_iff]
        rintro ⟨r, hr, -, hv⟩
        exact hdead ((h.row r hr).term v hv).1
  · intro g hg
    obtain ⟨htidy, hterm⟩ := hgoal g hg
    refine ⟨htidy, fun v hv => ⟨(hterm v hv).1, ?_⟩⟩
    rw [hbasic]
    exact (hterm v hv).2

/-- Links do not depend on the constraints, the settings and the counters, and they carry over
to other linked objectives. -/
theorem Linked.withObjectives {out : Option RowId} (h : t.Linked out)
    (hrows : t'.rows = t.rows) (hvars : t'.vars = t.vars) (hslots : t'.rowSlots = t.rowSlots)
    (hgoal : ∀ g ∈ t'.objectives, g.LinkedIn t) : t'.Linked out := by
  refine h.transfer hrows h.out_fresh ?_ ?_ ?_ ?_
  · intro id
    rw [hslots]
    exact h.slot_iff id
  · intro v hv _
    rwa [hvars]
  · intro v x hx
    exact .inl ⟨x, hvars ▸ hx, rfl⟩
  · intro g hg
    rw [hvars]
    exact ⟨(hgoal g hg).tidy, (hgoal g hg).term⟩

/-- Links depend on the rows, their slots, the variables and the objectives. -/
theorem Linked.of_eq {out : Option RowId} (h : t.Linked out) (hrows : t'.rows = t.rows)
    (hvars : t'.vars = t.vars) (hslots : t'.rowSlots = t.rowSlots)
    (hobj : t'.objectives = t.objectives) : t'.Linked out :=
  h.withObjectives hrows hvars hslots fun g hg => h.goal g (hobj ▸ hg)

/-- Counting keeps the links. -/
theorem Linked.count {out : Option RowId} (h : t.Linked out) (f : Counters → Counters) :
    (t.count f).Linked out :=
  h.of_eq (rows_count t f) (vars_count t f) (rowSlots_count t f) (objectives_count t f)

/-- A linked goal may take the place of the goal. -/
theorem Linked.withGoal {out : Option RowId} (h : t.Linked out) {g : Goal K}
    (hg : g.LinkedIn t) : ({ t with goal := g } : Tableau K Q).Linked out := by
  refine h.withObjectives rfl rfl rfl fun g' hg' => ?_
  rcases List.mem_cons.mp hg' with rfl | hg'
  · exact hg
  · exact h.goal g' (List.mem_cons_of_mem _ hg')

/-- A linked objective may become the measure of a constraint being admitted. -/
theorem Linked.withPhaseOne {out : Option RowId} (h : t.Linked out) {o : Option (Goal K)}
    (ho : ∀ g ∈ o, g.LinkedIn t) : ({ t with phaseOne := o } : Tableau K Q).Linked out := by
  refine h.withObjectives rfl rfl rfl fun g hg => ?_
  rcases List.mem_cons.mp hg with rfl | hg
  · exact h.goal t.goal List.mem_cons_self
  · exact ho g (Option.mem_toList.mp hg)

/-- A tableau that is linked stays so where nothing is measured any more. -/
theorem Linked.withoutPhaseOne {out : Option RowId} (h : t.Linked out) :
    ({ t with phaseOne := none } : Tableau K Q).Linked out :=
  h.withPhaseOne fun g hg => absurd hg (by simp)

/-- A change of a variable that leaves its links alone. -/
theorem Linked.modifyVar {out : Option RowId} (h : t.Linked out) (v : VarId)
    {f : Variable Q → Variable Q} (hf : ∀ x, (f x).links = x.links) :
    (t.modifyVar v f).Linked out := by
  have hget : ∀ w, (t.modifyVar v f).vars.get? w =
      if w = v then (t.vars.get? w).map f else t.vars.get? w :=
    VariablePool.get?_modify t.vars v f
  have hlive : ∀ w, t.vars.isLive w → (t.modifyVar v f).vars.isLive w := by
    intro w hw
    obtain ⟨x, hx⟩ := VariablePool.isLive_iff.mp hw
    rw [VariablePool.isLive_iff, hget, hx]
    by_cases hwv : w = v
    · exact ⟨f x, by rw [if_pos hwv, Option.map_some]⟩
    · exact ⟨x, if_neg hwv⟩
  refine h.transfer rfl h.out_fresh h.slot_iff (fun w hw _ => hlive w hw) ?_ ?_
  · intro w x hx
    rw [hget] at hx
    by_cases hwv : w = v
    · rw [if_pos hwv] at hx
      obtain ⟨y, hy, rfl⟩ := Option.map_eq_some_iff.mp hx
      exact .inl ⟨y, hy, hf y⟩
    · rw [if_neg hwv] at hx
      exact .inl ⟨x, hx, rfl⟩
  · intro g hg
    have hold := h.goal g hg
    exact ⟨hold.tidy, fun w hw => ⟨hlive w (hold.term w hw).1, (hold.term w hw).2⟩⟩

/-- Changes of variables that are not of their links keep these. -/
theorem Linked.foldl_modifyVar {out : Option RowId} (h : t.Linked out)
    {f : Variable Q → Variable Q} (hf : ∀ x, (f x).links = x.links) (vs : List VarId) :
    (vs.foldl (fun t v => t.modifyVar v f) t).Linked out := by
  induction vs generalizing t with
  | nil => exact h
  | cons v vs ih => exact ih (h.modifyVar v hf)

/-! ### Reading linked tableaux -/

namespace Linked

variable {out : Option RowId}

/-- Rows with one handle are one. -/
theorem eq_of_id_eq (h : t.Linked out) {r s : Row K} (hr : r ∈ t.rows) (hs : s ∈ t.rows)
    (hid : r.id = s.id) : r = s :=
  List.inj_on_of_nodup_map h.nodup_ids hr hs hid

/-- What is found at a handle is the row that has it. -/
theorem row?_eq_some_iff (h : t.Linked out) {id : RowId} {r : Row K} :
    t.row? id = some r ↔ r ∈ t.rows ∧ r.id = id := by
  constructor
  · intro hr
    exact ⟨List.mem_of_find?_eq_some hr, by simpa using List.find?_some hr⟩
  · rintro ⟨hr, rfl⟩
    cases hfind : t.row? r.id with
    | none => exact absurd (List.find?_eq_none.mp hfind r hr) (by simp)
    | some s =>
        have hs : s.id = r.id := by simpa using List.find?_some hfind
        rw [h.eq_of_id_eq (List.mem_of_find?_eq_some hfind) hr hs]

/-- The definition of a variable is the row that defines it. -/
theorem definition?_eq_some_iff (h : t.Linked out) {v : VarId} {r : Row K} :
    t.definition? v = some r ↔ r ∈ t.rows ∧ r.basic = v := by
  rw [definition?]
  constructor
  · intro hr
    obtain ⟨id, hid, hrow⟩ := Option.bind_eq_some_iff.mp hr
    obtain ⟨x, hx, hdef⟩ := Option.bind_eq_some_iff.mp hid
    obtain ⟨s, hs, hsid, hsv⟩ := ((h.var v x hx).definition_iff id).mp hdef
    obtain ⟨hrt, hrid⟩ := h.row?_eq_some_iff.mp hrow
    obtain rfl := h.eq_of_id_eq hs hrt (hsid.trans hrid.symm)
    exact ⟨hs, hsv⟩
  · rintro ⟨hr, rfl⟩
    obtain ⟨x, hx⟩ := VariablePool.isLive_iff.mp (h.row r hr).basic_isLive
    have hdef : x.definition = some r.id :=
      ((h.var _ x hx).definition_iff r.id).mpr ⟨r, hr, rfl, rfl⟩
    rw [hx, Option.bind_some, hdef, Option.bind_some]
    exact h.row?_eq_some_iff.mpr ⟨hr, rfl⟩

/-- A variable has no definition if it is not basic. -/
theorem definition?_eq_none_iff (h : t.Linked out) {v : VarId} :
    t.definition? v = none ↔ ¬t.IsBasic v := by
  constructor
  · rintro hnone ⟨r, hr, hv⟩
    rw [h.definition?_eq_some_iff.mpr ⟨hr, hv⟩] at hnone
    exact absurd hnone (by simp)
  · intro hv
    cases hdef : t.definition? v with
    | none => rfl
    | some r =>
        obtain ⟨hr, hrv⟩ := h.definition?_eq_some_iff.mp hdef
        exact absurd ⟨r, hr, hrv⟩ hv

/-- A basic variable stands at the constant of its row. -/
theorem rowValue_basic (h : t.Linked out) {r : Row K} (hr : r ∈ t.rows) :
    t.rowValue r.basic = r.expr.constant := by
  rw [rowValue, h.definition?_eq_some_iff.mpr ⟨hr, rfl⟩]
  rfl

/-- A variable that is not basic stands at zero. -/
theorem rowValue_of_not_isBasic (h : t.Linked out) {v : VarId} (hv : ¬t.IsBasic v) :
    t.rowValue v = 0 := by
  rw [rowValue, h.definition?_eq_none_iff.mpr hv]
  rfl

/-- Where variables stand depends on the rows alone. -/
theorem rowValue_congr {out' : Option RowId} (h : t.Linked out) (h' : t'.Linked out')
    (hrows : t'.rows = t.rows) (v : VarId) : t'.rowValue v = t.rowValue v := by
  by_cases hv : t.IsBasic v
  · obtain ⟨r, hr, rfl⟩ := hv
    rw [h.rowValue_basic hr, h'.rowValue_basic (hrows ▸ hr)]
  · rw [h.rowValue_of_not_isBasic hv,
      h'.rowValue_of_not_isBasic fun hb => hv ((isBasic_congr hrows v).mp hb)]

/-- No two rows define one variable. -/
theorem eq_of_basic_eq (h : t.Linked out) {r s : Row K} (hr : r ∈ t.rows) (hs : s ∈ t.rows)
    (hb : r.basic = s.basic) : r = s := by
  have hdef := h.definition?_eq_some_iff.mpr ⟨hr, hb⟩
  rw [h.definition?_eq_some_iff.mpr ⟨hs, rfl⟩] at hdef
  exact (Option.some.inj hdef).symm

/-- A variable lists the rows in which it has a term, and nothing if it is not live. -/
theorem mem_refs (h : t.Linked out) {v : VarId} {id : RowId} :
    id ∈ t.refs v ↔ ∃ r ∈ t.rows, r.id = id ∧ v ∈ r.expr.vars := by
  rw [refs]
  cases hx : t.vars.get? v with
  | none =>
      simp only [Option.map_none, Option.getD_none, List.not_mem_nil, false_iff]
      rintro ⟨r, hr, -, hv⟩
      have hlive := ((h.row r hr).term v hv).1
      rw [VariablePool.isLive_iff, hx] at hlive
      simp at hlive
  | some x =>
      simp only [Option.map_some, Option.getD_some]
      exact (h.var v x hx).mem_refs_iff id

/-- A variable refers to no row twice. -/
theorem nodup_refs (h : t.Linked out) (v : VarId) : (t.refs v).Nodup := by
  rw [refs]
  cases hx : t.vars.get? v with
  | none => exact List.nodup_nil
  | some x => exact (h.var v x hx).nodup_refs

/-- The rows that refer to a variable are those that have a term of it. -/
theorem mem_referring (h : t.Linked out) {v : VarId} {r : Row K} :
    r ∈ t.referring v ↔ r ∈ t.rows ∧ v ∈ r.expr.vars := by
  rw [referring]
  rw [List.mem_filterMap]
  constructor
  · rintro ⟨id, hid, hrow⟩
    obtain ⟨s, hs, hsid, hv⟩ := h.mem_refs.mp hid
    obtain ⟨hr, hrid⟩ := h.row?_eq_some_iff.mp hrow
    obtain rfl := h.eq_of_id_eq hs hr (hsid.trans hrid.symm)
    exact ⟨hs, hv⟩
  · rintro ⟨hr, hv⟩
    exact ⟨r.id, h.mem_refs.mpr ⟨r, hr, rfl, hv⟩, h.row?_eq_some_iff.mpr ⟨hr, rfl⟩⟩

/-- A variable that is basic is live. -/
theorem isLive_of_isBasic (h : t.Linked out) {v : VarId} (hv : t.IsBasic v) :
    t.vars.isLive v := by
  obtain ⟨r, hr, rfl⟩ := hv
  exact (h.row r hr).basic_isLive

/-- A variable that is not live is absent. -/
theorem absent_of_not_isLive (h : t.Linked out) {v : VarId} (hv : ¬t.vars.isLive v) :
    t.Absent v :=
  ⟨fun hb => hv (h.isLive_of_isBasic hb), fun r hr hmem => hv ((h.row r hr).term v hmem).1,
    fun g hg hmem => hv ((h.goal g hg).term v hmem).1⟩

end Linked

/-! ### Slots of rows -/

/-- The slot for one more row is out until a row is put into it. -/
theorem Linked.acquireRow (h : t.Linked none) :
    t.acquireRow.2.Linked (some t.acquireRow.1) := by
  have hfst : t.acquireRow.1 = ⟨t.rowSlots.nextFree⟩ := rfl
  have hfree : ¬t.rowSlots.isLive t.rowSlots.nextFree :=
    ne_true_of_eq_false t.rowSlots.isLive_nextFree
  refine h.transfer (rows_acquireRow t) ?_ ?_ ?_ ?_ ?_
  · intro id hid r hr hrid
    refine hfree ((h.slot_iff ⟨t.rowSlots.nextFree⟩).mpr (.inl ⟨r, hr, ?_⟩))
    rw [hrid, ← Option.mem_some.mp hid, hfst]
  · intro id
    have hslot := h.slot_iff id
    rw [rowSlots_acquireRow, Pool.isLive, Pool.get?_occupy, hfst]
    by_cases hid : id.index = t.rowSlots.nextFree
    · have hfree_eq : (⟨t.rowSlots.nextFree⟩ : RowId) = id := RowId.eq_of_index_eq hid.symm
      simp [hid, hfree_eq]
    · have hne : (⟨t.rowSlots.nextFree⟩ : RowId) ≠ id := fun heq => hid (heq ▸ rfl)
      rw [if_neg hid, ← Pool.isLive, hslot]
      simp [hne]
  · intro v hv _
    rwa [vars_acquireRow]
  · intro v x hx
    rw [vars_acquireRow] at hx
    exact .inl ⟨x, hx, rfl⟩
  · intro g hg
    rw [objectives_acquireRow] at hg
    rw [vars_acquireRow]
    exact ⟨(h.goal g hg).tidy, (h.goal g hg).term⟩

/-- Releasing the slot of the row that is out leaves no row out. -/
theorem Linked.releaseRow {id : RowId} (h : t.Linked (some id)) :
    (t.releaseRow id).Linked none := by
  refine h.transfer rfl (fun _ hnone => absurd hnone (by simp)) ?_ (fun v hv _ => hv) ?_ ?_
  · intro id'
    have hslot := h.slot_iff id'
    rw [Pool.isLive] at hslot ⊢
    simp only [Tableau.releaseRow, Pool.get?_release]
    by_cases hid : id' = id
    · subst hid
      simp only [if_true, Option.isSome_none, Bool.false_eq_true, Option.not_mem_none, or_false,
        false_iff]
      rintro ⟨r, hr, hrid⟩
      exact h.out_fresh id' rfl r hr hrid
    · rw [if_neg fun hi => hid (RowId.eq_of_index_eq hi), hslot]
      simp [Ne.symm hid]
  · exact fun v x hx => .inl ⟨x, hx, rfl⟩
  · exact fun g hg => ⟨(h.goal g hg).tidy, (h.goal g hg).term⟩

/-! ### New variables -/

/-- A new variable keeps the links. -/
theorem Linked.addVariable [Scalar Q] {out : Option RowId} (h : t.Linked out) (kind : Kind)
    (stem : Option String) : (t.addVariable kind stem).2.Linked out := by
  obtain ⟨name, hget⟩ := t.get?_addVariable kind stem
  have hlive := t.isLive_addVariable kind stem
  refine h.transfer (rows_addVariable t kind stem) h.out_fresh ?_ ?_ ?_ ?_
  · intro id
    rw [rowSlots_addVariable]
    exact h.slot_iff id
  · exact fun v hv _ => (hlive v).mpr (.inr hv)
  · intro v x hx
    rw [hget] at hx
    by_cases hv : v = (t.addVariable kind stem).1
    · rw [if_pos hv] at hx
      obtain rfl := Option.some.inj hx
      exact .inr ⟨hv ▸ t.get?_addVariable_fst kind stem, by rw [hv]; rfl⟩
    · rw [if_neg hv] at hx
      exact .inl ⟨x, hx, rfl⟩
  · intro g hg
    rw [objectives_addVariable] at hg
    have hold := h.goal g hg
    exact ⟨hold.tidy, fun w hw => ⟨(hlive w).mpr (.inr (hold.term w hw).1),
      (hold.term w hw).2⟩⟩

/-- A variable that occurs nowhere may be released. -/
theorem Linked.release {out : Option RowId} (h : t.Linked out) {v : VarId} (hv : t.Absent v) :
    ({ t with vars := t.vars.release v } : Tableau K Q).Linked out := by
  have hlive : ∀ w, w ≠ v → t.vars.isLive w → (t.vars.release v).isLive w := by
    intro w hwv hw
    rw [VariablePool.isLive_iff, VariablePool.get?_release, if_neg hwv]
    exact VariablePool.isLive_iff.mp hw
  refine h.transfer rfl h.out_fresh h.slot_iff ?_ ?_ ?_
  · exact fun w hw habs => hlive w (fun hwv => habs (hwv ▸ hv)) hw
  · intro w x hx
    simp only [VariablePool.get?_release] at hx
    by_cases hwv : w = v
    · rw [if_pos hwv] at hx
      exact absurd hx (by simp)
    · rw [if_neg hwv] at hx
      exact .inl ⟨x, hx, rfl⟩
  · intro g hg
    obtain ⟨htidy, hterm⟩ := h.goal g hg
    refine ⟨htidy, fun w hw => ⟨hlive w ?_ (hterm w hw).1, (hterm w hw).2⟩⟩
    exact fun hwv => hv.notMem_goal g hg (hwv ▸ hw)

end Tableau

end LexSimplex
