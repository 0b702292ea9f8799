import LexSimplex.Proofs.Embedding.Renamings
import LexSimplex.Proofs.Links.Basic

/-!
# Embedded tableaux

A tableau is **embedded** in a larger one along a renaming if the larger one has each of its rows
and variables under their new handles, linked in the same order, and its goal says the same of
these variables. The larger tableau may have anything besides. What it has besides never mixes
with the embedded part: by the links, a row in which one embedded variable occurs is the copy of a
row, so all its variables are embedded.

## Main definitions

* `Tableau.Embeds`: a tableau has a copy in another.
* `Tableau.Inside`: a variable of the larger tableau is the copy of a live one.

## Main results

* `Tableau.Embeds.exists_row`: a row with an embedded variable is the copy of a row.
* `Tableau.Embeds.definition?_eq`, `Tableau.Embeds.referring_eq`, `Tableau.Embeds.value_eq`: what
  is read of an embedded variable.
* `Tableau.Embeds.frame`: what happens besides leaves a tableau embedded.
-/

namespace LexSimplex

variable {K Q : Type}

/-- A variable is **matched** by another that has the same role and the same links under the new
handles of rows. -/
structure Variable.Matches (f : RowId → RowId) (x y : Variable Q) : Prop where
  role : y.role = x.role
  definition : y.definition = x.definition.map f
  refs : y.refs = x.refs.map f

namespace Variable.Matches

variable {f : RowId → RowId} {x y : Variable Q}

/-- A variable and its match are of the same kind. -/
theorem kind_eq (h : x.Matches f y) : y.kind = x.kind :=
  congrArg Prod.fst h.role

/-- A variable and its match are pinned alike. -/
theorem pinned_eq (h : x.Matches f y) : y.pinned = x.pinned :=
  congrArg (·.2.1) h.role

/-- A variable and its match have the same computed value. -/
theorem computed_eq (h : x.Matches f y) : y.computed = x.computed :=
  congrArg (·.2.2) h.role

/-- A variable and its match are folded in alike. -/
theorem isFolded_eq (h : x.Matches f y) : y.isFolded = x.isFolded := by
  rw [isFolded, isFolded, h.pinned_eq, h.kind_eq]

/-- Variables changed on conditions that come to the same. -/
theorem ite {x' y' : Variable Q} {p q : Prop} [Decidable p] [Decidable q] (h : x.Matches f y)
    (hpq : q ↔ p) (h' : x'.Matches f y') :
    (if p then x' else x).Matches f (if q then y' else y) := by
  by_cases hp : p
  · rw [if_pos hp, if_pos (hpq.mpr hp)]
    exact h'
  · rw [if_neg hp, if_neg (mt hpq.mp hp)]
    exact h

/-- Matching variables still match where they come to be defined by matching rows. -/
theorem define (h : x.Matches f y) (r : Option RowId) :
    (x.define r).Matches f (y.define (r.map f)) :=
  ⟨h.role, rfl, h.refs⟩

/-- Matching variables still match without their references. -/
theorem clear (h : x.Matches f y) :
    Matches f { x with refs := [] } { y with refs := [] } :=
  ⟨h.role, h.definition, rfl⟩

/-- Matching variables still match with a reference to matching rows. -/
theorem addRef (h : x.Matches f y) (hf : f.Injective) (r : RowId) :
    (x.addRef r).Matches f (y.addRef (f r)) := by
  rw [Variable.addRef, Variable.addRef, h.refs]
  by_cases hr : r ∈ x.refs
  · rw [if_pos hr, if_pos (List.mem_map_of_mem hr)]
    exact h
  · rw [if_neg hr, if_neg fun hmem => hr ((List.mem_map_of_injective hf).mp hmem)]
    exact ⟨h.role, h.definition, by simp⟩

/-- Matching variables still match once a reference to matching rows is dropped. -/
theorem removeRef (h : x.Matches f y) (hf : f.Injective) (r : RowId) :
    (x.removeRef r).Matches f (y.removeRef (f r)) := by
  refine ⟨h.role, h.definition, ?_⟩
  have hbeq : ((· == f r) ∘ f) = (· == r) := funext fun s => hf.beq_eq
  show y.refs.swapErase (· == f r) = (x.refs.swapErase (· == r)).map f
  rw [h.refs, swapErase_map, hbeq]

end Variable.Matches

namespace Tableau

variable {m : Renaming} {t u u' : Tableau K Q} {out out' : Option RowId}
  {v w : VarId} {r : Row K}

/-- A tableau is **embedded** in another along a renaming: the other has its variables and rows
under their new handles, and the same goal as far as these variables go. -/
structure Embeds (m : Renaming) (t u : Tableau K Q) : Prop where
  var : ∀ v x, t.vars.get? v = some x →
    ∃ y, u.vars.get? (m.var v) = some y ∧ x.Matches m.row y
  row : ∀ r ∈ t.rows, r.rename m ∈ u.rows
  goal : Goal.Agree m.var (fun v => t.vars.isLive v) t.goal u.goal

/-- A variable lies **inside** if it is the copy of a live one. -/
def Inside (m : Renaming) (t : Tableau K Q) (w : VarId) : Prop :=
  ∃ v, t.vars.isLive v ∧ m.var v = w

/-- The goal of a linked tableau is tidy. -/
theorem Linked.tidy_goal [Coefficient K] (ht : t.Linked out) : t.goal.Tidy :=
  (ht.goal t.goal List.mem_cons_self).tidy

namespace Embeds

/-- Copies of live variables are live. -/
theorem isLive_of_inside (h : t.Embeds m u) (hw : Inside m t w) : u.vars.isLive w := by
  obtain ⟨v, hv, rfl⟩ := hw
  obtain ⟨x, hx⟩ := VariablePool.isLive_iff.mp hv
  obtain ⟨y, hy, -⟩ := h.var v x hx
  exact VariablePool.isLive_iff.mpr ⟨y, hy⟩

/-- What happens besides the copy leaves a tableau embedded. -/
theorem frame (h : t.Embeds m u)
    (hvar : ∀ v, t.vars.isLive v → u'.vars.get? (m.var v) = u.vars.get? (m.var v))
    (hrow : ∀ r ∈ t.rows, r.rename m ∈ u'.rows)
    (hgoal : ∀ v, t.vars.isLive v →
      u'.goal.terms.get? (m.var v) = u.goal.terms.get? (m.var v)) : t.Embeds m u' := by
  refine ⟨fun v x hx => ?_, hrow, fun v hv => (hgoal v hv).trans (h.goal v hv)⟩
  obtain ⟨y, hy, hmatch⟩ := h.var v x hx
  exact ⟨y, (hvar v (VariablePool.isLive_iff.mpr ⟨x, hx⟩)).trans hy, hmatch⟩

/-- A variable is of the same kind in both tableaux. -/
theorem kind_eq (h : t.Embeds m u) (hv : t.vars.isLive v) : u.kind (m.var v) = t.kind v := by
  obtain ⟨x, hx⟩ := VariablePool.isLive_iff.mp hv
  obtain ⟨y, hy, hmatch⟩ := h.var v x hx
  rw [kind_of_get? hx, kind_of_get? hy, hmatch.kind_eq]

/-- A variable is mentioned by the rows that match those that mention it. -/
theorem refs_eq (h : t.Embeds m u) (hv : t.vars.isLive v) :
    u.refs (m.var v) = (t.refs v).map m.row := by
  obtain ⟨x, hx⟩ := VariablePool.isLive_iff.mp hv
  obtain ⟨y, hy, hmatch⟩ := h.var v x hx
  rw [refs, refs, hx, hy]
  exact hmatch.refs

/-! ### Rows of the copy -/

variable [Coefficient K]

/-- The copy of a row has embedded variables only. -/
theorem inside_of_row (ht : t.Linked out) (hr : r ∈ t.rows) :
    Inside m t (r.rename m).basic ∧ ∀ w ∈ (r.rename m).expr.vars, Inside m t w := by
  have hlinked := ht.row r hr
  refine ⟨⟨r.basic, hlinked.basic_isLive, rfl⟩, fun w hw => ?_⟩
  obtain ⟨v, hv, rfl⟩ := List.mem_map.mp ((LinExpr.vars_rename m.var r.expr) ▸ hw)
  exact ⟨v, (hlinked.term v hv).1, rfl⟩

/-- A row that has the handle of the copy of a row is that copy. -/
theorem eq_rename_of_id_eq (h : t.Embeds m u) (hu : u.Linked out') (hr : r ∈ u.rows)
    {r₀ : Row K} (hr₀ : r₀ ∈ t.rows) (hid : m.row r₀.id = r.id) : r₀.rename m = r :=
  hu.eq_of_id_eq (h.row r₀ hr₀) hr hid

/-- A row in which an embedded variable occurs is the copy of a row. -/
theorem exists_row (h : t.Embeds m u) (ht : t.Linked out) (hu : u.Linked out') (hr : r ∈ u.rows)
    (hw : Inside m t w) (hmem : w = r.basic ∨ w ∈ r.expr.vars) :
    ∃ r₀ ∈ t.rows, r₀.rename m = r := by
  obtain ⟨v, hv, rfl⟩ := hw
  obtain ⟨x, hx⟩ := VariablePool.isLive_iff.mp hv
  obtain ⟨y, hy, hmatch⟩ := h.var v x hx
  have hlinked := hu.var (m.var v) y hy
  have hlinked₀ := ht.var v x hx
  rcases hmem with hbasic | hterm
  · have hdef := (hlinked.definition_iff r.id).mpr ⟨r, hr, rfl, hbasic.symm⟩
    rw [hmatch.definition] at hdef
    obtain ⟨id, hid, hrow⟩ := Option.map_eq_some_iff.mp hdef
    obtain ⟨r₀, hr₀, rfl, -⟩ := (hlinked₀.definition_iff id).mp hid
    exact ⟨r₀, hr₀, h.eq_rename_of_id_eq hu hr hr₀ hrow⟩
  · have href := (hlinked.mem_refs_iff r.id).mpr ⟨r, hr, rfl, hterm⟩
    rw [hmatch.refs] at href
    obtain ⟨id, hid, hrow⟩ := List.mem_map.mp href
    obtain ⟨r₀, hr₀, rfl, -⟩ := (hlinked₀.mem_refs_iff id).mp hid
    exact ⟨r₀, hr₀, h.eq_rename_of_id_eq hu hr hr₀ hrow⟩

/-- A row in which one variable lies outside has all its variables outside. -/
theorem outside_of_row (h : t.Embeds m u) (ht : t.Linked out) (hu : u.Linked out')
    (hr : r ∈ u.rows) (hv : ¬Inside m t v) (hmem : v = r.basic ∨ v ∈ r.expr.vars)
    (hw : w = r.basic ∨ w ∈ r.expr.vars) : ¬Inside m t w := by
  intro hin
  obtain ⟨r₀, hr₀, rfl⟩ := h.exists_row ht hu hr hin hw
  obtain ⟨hbasic, hterm⟩ := inside_of_row (m := m) ht hr₀
  rcases hmem with rfl | hmem
  · exact hv hbasic
  · exact hv (hterm v hmem)

/-! ### Reading the copy -/

/-- A row is found in the large tableau as it is in the small one, renamed. -/
theorem row?_eq (h : t.Embeds m u) (ht : t.Linked out) (hu : u.Linked out') {id : RowId}
    (hr : t.row? id = some r) : u.row? (m.row id) = some (r.rename m) := by
  obtain ⟨hmem, rfl⟩ := ht.row?_eq_some_iff.mp hr
  exact hu.row?_eq_some_iff.mpr ⟨h.row r hmem, rfl⟩

/-- The copy of a variable is defined by the copy of its row. -/
theorem definition?_eq (h : t.Embeds m u) (ht : t.Linked out) (hu : u.Linked out')
    (hv : t.vars.isLive v) :
    u.definition? (m.var v) = (t.definition? v).map (Row.rename m) := by
  cases hdef : t.definition? v with
  | some r =>
    obtain ⟨hr, rfl⟩ := ht.definition?_eq_some_iff.mp hdef
    exact hu.definition?_eq_some_iff.mpr ⟨h.row r hr, rfl⟩
  | none =>
    refine hu.definition?_eq_none_iff.mpr fun ⟨r, hr, hbasic⟩ => ?_
    obtain ⟨r₀, hr₀, rfl⟩ := h.exists_row ht hu hr ⟨v, hv, rfl⟩ (.inl hbasic.symm)
    exact ht.definition?_eq_none_iff.mp hdef ⟨r₀, hr₀, m.var_injective hbasic⟩

/-- The rows in which the copy of a variable occurs, in its order. -/
theorem referring_eq (h : t.Embeds m u) (ht : t.Linked out) (hu : u.Linked out')
    (hv : t.vars.isLive v) :
    u.referring (m.var v) = (t.referring v).map (Row.rename m) := by
  rw [referring, referring, h.refs_eq hv, List.filterMap_map, List.map_filterMap]
  refine List.filterMap_congr fun id hid => ?_
  obtain ⟨r, hr, rfl, -⟩ := ht.mem_refs.mp hid
  have hrow := ht.row?_eq_some_iff.mpr ⟨hr, rfl⟩
  rw [Function.comp_apply, hrow, h.row?_eq ht hu hrow]
  rfl

/-- A variable has the same value in the rows of both tableaux. -/
theorem rowValue_eq (h : t.Embeds m u) (ht : t.Linked out) (hu : u.Linked out')
    (hv : t.vars.isLive v) : u.rowValue (m.var v) = t.rowValue v := by
  rw [rowValue, rowValue, h.definition?_eq ht hu hv]
  cases t.definition? v with
  | none => rfl
  | some r => rfl

/-- The copy of a variable has its value. -/
theorem value_eq [Scalar Q] [Precision K Q] (h : t.Embeds m u) (ht : t.Linked out)
    (hu : u.Linked out') (hv : t.vars.isLive v) : u.value (m.var v) = t.value v := by
  obtain ⟨x, hx⟩ := VariablePool.isLive_iff.mp hv
  obtain ⟨y, hy, hmatch⟩ := h.var v x hx
  rw [value, value, hx, hy]
  dsimp only
  rw [hmatch.isFolded_eq, hmatch.computed_eq, h.rowValue_eq ht hu hv]

end Embeds

end Tableau

end LexSimplex
