import LexSimplex.Proofs.Links.Basic

/-!
# Rows put in and taken out

Attaching a row and detaching it, each described by the rows there are afterwards and by the
links it keeps.

## Main results

* `Tableau.Linked.attach`, `Tableau.Linked.detach`: links are kept.
* `Tableau.Linked.mem_rows_detach`: the rows that are left are the others.
-/

namespace LexSimplex

namespace Tableau

variable {K Q : Type} {t : Tableau K Q} {r : Row K}

/-! ### A row put in -/

@[simp] theorem rows_attach (t : Tableau K Q) (r : Row K) :
    (t.attach r).rows = t.rows ++ [r] :=
  rows_count _ _

@[simp] theorem rowSlots_attach (t : Tableau K Q) (r : Row K) :
    (t.attach r).rowSlots = t.rowSlots :=
  rowSlots_count _ _

@[simp] theorem goal_attach (t : Tableau K Q) (r : Row K) : (t.attach r).goal = t.goal :=
  goal_count _ _

@[simp] theorem phaseOne_attach (t : Tableau K Q) (r : Row K) :
    (t.attach r).phaseOne = t.phaseOne :=
  phaseOne_count _ _

@[simp] theorem constraints_attach (t : Tableau K Q) (r : Row K) :
    (t.attach r).constraints = t.constraints :=
  constraints_count _ _

@[simp] theorem entered_attach (t : Tableau K Q) (r : Row K) :
    (t.attach r).entered = t.entered :=
  entered_count _ _

/-- Attaching a row leaves the objectives. -/
@[simp] theorem objectives_attach (t : Tableau K Q) (r : Row K) :
    (t.attach r).objectives = t.objectives :=
  objectives_count _ _

/-- The variable that a row defines and those with a term in it take note of the row. -/
theorem get?_attach (h : r.expr.vars.Nodup) (v : VarId) :
    (t.attach r).vars.get? v = (t.vars.get? v).map fun x =>
      let x := if v = r.basic then x.define (some r.id) else x
      if v ∈ r.expr.vars then x.addRef r.id else x := by
  have hvars : (t.attach r).vars = r.expr.vars.foldl (fun p v => p.modify v (·.addRef r.id))
      (t.vars.modify r.basic (·.define (some r.id))) := vars_count _ _
  rw [hvars, VariablePool.get?_foldl_modify h (fun _ x => x.addRef r.id),
    VariablePool.get?_modify]
  by_cases hb : v = r.basic
  · by_cases hm : v ∈ r.expr.vars <;> simp [hb ▸ hm, hb, Function.comp_def]
  · by_cases hm : v ∈ r.expr.vars <;> simp [hm, hb]

/-- Attaching a row leaves the mark where it was. -/
@[simp] theorem highWater_attach (t : Tableau K Q) (r : Row K) :
    (t.attach r).highWater = t.highWater := by
  have hvars : (t.attach r).vars = r.expr.vars.foldl (fun p v => p.modify v (·.addRef r.id))
      (t.vars.modify r.basic (·.define (some r.id))) := vars_count _ _
  rw [highWater, hvars, VariablePool.highWater_foldl_modify]
  exact Pool.highWater_modify _ _ _

/-- Attaching a row keeps the variables. -/
theorem SameVars.attach (t : Tableau K Q) (h : r.expr.vars.Nodup) : t.SameVars (t.attach r) := by
  refine ⟨fun v => ?_, Nat.le_of_eq (highWater_attach t r).symm⟩
  rw [get?_attach h, Option.map_map]
  refine congrArg (fun f => (t.vars.get? v).map f) (funext fun x => ?_)
  simp only [Function.comp_apply]
  split <;> split <;> simp

/-- The basic variable of an attached row is basic beside those that were. -/
theorem isBasic_attach (t : Tableau K Q) (r : Row K) (v : VarId) :
    (t.attach r).IsBasic v ↔ t.IsBasic v ∨ r.basic = v := by
  simp [IsBasic, or_and_right, exists_or]

/-- The links of a variable after a row was put in. -/
theorem links_attach (h : r.expr.vars.Nodup) {v : VarId} {x : Variable Q}
    (hx : (t.attach r).vars.get? v = some x) :
    ∃ y, t.vars.get? v = some y ∧ x.id = y.id ∧
      x.definition = (if v = r.basic then some r.id else y.definition) ∧
      (y.refs.Nodup → x.refs.Nodup) ∧
      ∀ id, id ∈ x.refs ↔ (r.id = id ∧ v ∈ r.expr.vars) ∨ id ∈ y.refs := by
  rw [get?_attach h] at hx
  obtain ⟨y, hy, rfl⟩ := Option.map_eq_some_iff.mp hx
  refine ⟨y, hy, ?_⟩
  by_cases hb : v = r.basic
  · by_cases hm : v ∈ r.expr.vars
    · simp only [if_pos hb, if_pos hm]
      refine ⟨Variable.id_addRef (y.define (some r.id)) r.id, ?_,
        fun hn => Variable.nodup_refs_addRef (x := y.define (some r.id)) hn r.id, fun id => ?_⟩
      · rw [Variable.definition_addRef, Variable.definition_define]
      · rw [Variable.mem_refs_addRef, Variable.refs_define]
        simp [hm, eq_comm]
    · simp only [if_pos hb, if_neg hm]
      exact ⟨rfl, rfl, fun hn => hn, fun id => by simp [hm]⟩
  · by_cases hm : v ∈ r.expr.vars
    · simp only [if_neg hb, if_pos hm]
      refine ⟨Variable.id_addRef y r.id, Variable.definition_addRef y r.id,
        fun hn => Variable.nodup_refs_addRef hn r.id, fun id => ?_⟩
      rw [Variable.mem_refs_addRef]
      simp [hm, eq_comm]
    · simp only [if_neg hb, if_neg hm]
      exact ⟨trivial, trivial, fun hn => hn, fun id => by simp [hm]⟩

section Attach

variable [Coefficient K]

/-- A row may be put in if the variable that it defines occurs nowhere yet, not even in the row,
and the others are not basic. -/
theorem Linked.attach (h : t.Linked (some r.id)) (hlive : t.vars.isLive r.basic)
    (habs : t.Absent r.basic) (hnodup : r.expr.vars.Nodup)
    (hterm : ∀ v ∈ r.expr.vars, v ≠ r.basic ∧ t.vars.isLive v ∧ ¬t.IsBasic v) :
    (t.attach r).Linked none := by
  have hsame : t.SameVars (t.attach r) := SameVars.attach t hnodup
  have hmem : ∀ s, s ∈ (t.attach r).rows ↔ s ∈ t.rows ∨ s = r := by
    intro s
    rw [rows_attach, List.mem_append, List.mem_singleton]
  have hfresh : ∀ s ∈ t.rows, s.id ≠ r.id := h.out_fresh r.id rfl
  refine ⟨?_, fun _ hnone => absurd hnone (by simp), ?_, ?_, ?_, ?_⟩
  · rw [rows_attach, List.map_append, List.map_singleton]
    refine List.nodup_append.mpr ⟨h.nodup_ids, List.nodup_singleton _, ?_⟩
    intro id hid id' hid' heq
    obtain ⟨s, hs, rfl⟩ := List.mem_map.mp hid
    exact hfresh s hs (heq.trans (List.mem_singleton.mp hid'))
  · intro id
    rw [rowSlots_attach, h.slot_iff id]
    simp only [hmem, or_and_right, exists_or, exists_eq_left, Option.mem_some, Option.not_mem_none,
      or_false]
  · intro s hs
    rcases (hmem s).mp hs with hs | rfl
    · obtain ⟨hb, hn, ht⟩ := h.row s hs
      refine ⟨(hsame.isLive_iff _).mpr hb, hn, fun v hv => ?_⟩
      rw [hsame.isLive_iff, isBasic_attach]
      refine ⟨(ht v hv).1, ?_⟩
      rintro (hbasic | rfl)
      · exact (ht v hv).2 hbasic
      · exact habs.notMem_row s hs hv
    · refine ⟨(hsame.isLive_iff _).mpr hlive, hnodup, fun v hv => ?_⟩
      obtain ⟨hne, hvlive, hvbasic⟩ := hterm v hv
      rw [hsame.isLive_iff, isBasic_attach]
      exact ⟨hvlive, fun hor => hor.elim hvbasic fun heq => hne heq.symm⟩
  · intro v x hx
    obtain ⟨y, hy, hxid, hxdef, hxnodup, hxrefs⟩ := links_attach hnodup hx
    obtain ⟨hid, hdef, hrefs, href⟩ := h.var v y hy
    refine ⟨hxid.trans hid, fun id => ?_, hxnodup hrefs, fun id => ?_⟩
    · rw [hxdef]
      simp only [hmem, or_and_right, exists_or, exists_eq_left]
      by_cases hb : v = r.basic
      · rw [if_pos hb, Option.some.injEq]
        constructor
        · exact fun hrid => .inr ⟨hrid, hb.symm⟩
        · rintro (⟨s, hs, -, hsv⟩ | ⟨hrid, -⟩)
          · exact absurd ⟨s, hs, hsv.trans hb⟩ habs.not_isBasic
          · exact hrid
      · rw [if_neg hb, hdef]
        simp [Ne.symm hb]
    · rw [hxrefs, href]
      simp only [hmem, or_and_right, exists_or, exists_eq_left]
      exact or_comm
  · intro g hg
    rw [objectives_attach] at hg
    obtain ⟨htidy, hgterm⟩ := h.goal g hg
    refine ⟨htidy, fun v hv => ?_⟩
    rw [hsame.isLive_iff, isBasic_attach]
    refine ⟨(hgterm v hv).1, ?_⟩
    rintro (hbasic | rfl)
    · exact (hgterm v hv).2 hbasic
    · exact habs.notMem_goal g hg hv

end Attach

/-! ### A row taken out -/

@[simp] theorem rowSlots_detach (t : Tableau K Q) (r : Row K) :
    (t.detach r).rowSlots = t.rowSlots :=
  rfl

@[simp] theorem goal_detach (t : Tableau K Q) (r : Row K) : (t.detach r).goal = t.goal :=
  rfl

/-- The variable that a row defined and those with a term in it forget the row. -/
theorem get?_detach (h : r.expr.vars.Nodup) (v : VarId) :
    (t.detach r).vars.get? v = (t.vars.get? v).map fun x =>
      let x := if v = r.basic then x.define none else x
      if v ∈ r.expr.vars then x.removeRef r.id else x := by
  rw [detach]
  simp only []
  rw [VariablePool.get?_foldl_modify h (fun _ x => x.removeRef r.id),
    VariablePool.get?_modify]
  by_cases hb : v = r.basic
  · by_cases hm : v ∈ r.expr.vars <;> simp [hb ▸ hm, hb, Function.comp_def]
  · by_cases hm : v ∈ r.expr.vars <;> simp [hm, hb]

/-- Detaching a row leaves the mark where it was. -/
@[simp] theorem highWater_detach (t : Tableau K Q) (r : Row K) :
    (t.detach r).highWater = t.highWater :=
  (VariablePool.highWater_foldl_modify r.expr.vars (fun _ x => x.removeRef r.id) _).trans
    (Pool.highWater_modify _ _ _)

/-- Detaching a row keeps the variables. -/
theorem SameVars.detach (t : Tableau K Q) (h : r.expr.vars.Nodup) : t.SameVars (t.detach r) := by
  refine ⟨fun v => ?_, Nat.le_of_eq (highWater_detach t r).symm⟩
  rw [get?_detach h, Option.map_map]
  refine congrArg (fun f => (t.vars.get? v).map f) (funext fun x => ?_)
  simp only [Function.comp_apply]
  split <;> split <;> simp

/-- The links of a variable after a row was taken out. -/
theorem links_detach (h : r.expr.vars.Nodup) {v : VarId} {x : Variable Q}
    (hx : (t.detach r).vars.get? v = some x) :
    ∃ y, t.vars.get? v = some y ∧ x.id = y.id ∧
      x.definition = (if v = r.basic then none else y.definition) ∧
      (y.refs.Nodup → x.refs.Nodup ∧
        ∀ id, id ∈ x.refs ↔ ¬(r.id = id ∧ v ∈ r.expr.vars) ∧ id ∈ y.refs) := by
  rw [get?_detach h] at hx
  obtain ⟨y, hy, rfl⟩ := Option.map_eq_some_iff.mp hx
  refine ⟨y, hy, ?_⟩
  by_cases hb : v = r.basic
  · by_cases hm : v ∈ r.expr.vars
    · simp only [if_pos hb, if_pos hm]
      refine ⟨rfl, rfl, fun hn => ⟨Variable.nodup_refs_removeRef (x := y.define none) hn r.id,
        fun id => ?_⟩⟩
      rw [Variable.mem_refs_removeRef (x := y.define none) hn, Variable.refs_define]
      simp [hm, eq_comm]
    · simp only [if_pos hb, if_neg hm]
      exact ⟨rfl, rfl, fun hn => ⟨hn, fun id => by simp [hm]⟩⟩
  · by_cases hm : v ∈ r.expr.vars
    · simp only [if_neg hb, if_pos hm]
      refine ⟨rfl, rfl, fun hn => ⟨Variable.nodup_refs_removeRef hn r.id, fun id => ?_⟩⟩
      rw [Variable.mem_refs_removeRef hn]
      simp [hm, eq_comm]
    · simp only [if_neg hb, if_neg hm]
      exact ⟨trivial, trivial, fun hn => ⟨hn, fun id => by simp [hm]⟩⟩

variable [Coefficient K]

/-- The rows that are left are the others. -/
theorem Linked.mem_rows_detach {out : Option RowId} (h : t.Linked out) (hr : r ∈ t.rows)
    (s : Row K) : s ∈ (t.detach r).rows ↔ s ∈ t.rows ∧ s ≠ r := by
  have hpair : t.rows.Pairwise fun x y =>
      decide (x.id = r.id) = true → ¬decide (y.id = r.id) = true := by
    refine (List.pairwise_map.mp h.nodup_ids).imp ?_
    intro x y hxy hx hy
    exact hxy ((decide_eq_true_iff.mp hx).trans (decide_eq_true_iff.mp hy).symm)
  have hrows : (t.detach r).rows.Perm (t.rows.filter fun x => !decide (x.id = r.id)) :=
    swapErase_perm_filter hpair
  rw [hrows.mem_iff, List.mem_filter]
  refine and_congr_right fun hs => ?_
  simp only [Bool.not_eq_true', decide_eq_false_iff_not]
  exact not_congr ⟨fun hid => h.eq_of_id_eq hs hr hid, fun heq => heq ▸ rfl⟩

/-- Detaching a row keeps the handles of rows apart. -/
theorem Linked.nodup_ids_detach {out : Option RowId} (h : t.Linked out) (r : Row K) :
    ((t.detach r).rows.map Row.id).Nodup := by
  have hperm := (List.swapErase_perm (fun x : Row K => decide (x.id = r.id)) t.rows).map Row.id
  exact hperm.nodup_iff.mpr (h.nodup_ids.sublist ((List.eraseP_sublist).map Row.id))

/-- A variable is basic after a row was taken out if another row defines it. -/
theorem Linked.isBasic_detach {out : Option RowId} (h : t.Linked out) (hr : r ∈ t.rows)
    (v : VarId) : (t.detach r).IsBasic v ↔ t.IsBasic v ∧ v ≠ r.basic := by
  constructor
  · rintro ⟨s, hs, rfl⟩
    obtain ⟨hst, hsr⟩ := (h.mem_rows_detach hr s).mp hs
    exact ⟨⟨s, hst, rfl⟩, fun hb => hsr (h.eq_of_basic_eq hst hr hb)⟩
  · rintro ⟨⟨s, hs, rfl⟩, hne⟩
    exact ⟨s, (h.mem_rows_detach hr s).mpr ⟨hs, fun heq => hne (heq ▸ rfl)⟩, rfl⟩

/-- A row that is taken out is out of its slot. -/
theorem Linked.detach (h : t.Linked none) (hr : r ∈ t.rows) :
    (t.detach r).Linked (some r.id) := by
  have hnodup : r.expr.vars.Nodup := (h.row r hr).nodup
  have hsame : t.SameVars (t.detach r) := SameVars.detach t hnodup
  have hmem := h.mem_rows_detach hr
  refine ⟨h.nodup_ids_detach r, ?_, ?_, ?_, ?_, ?_⟩
  · intro id hid s hs hsid
    obtain ⟨hst, hsr⟩ := (hmem s).mp hs
    exact hsr (h.eq_of_id_eq hst hr (hsid.trans (Option.mem_some.mp hid).symm))
  · intro id
    rw [rowSlots_detach, h.slot_iff id]
    simp only [hmem, Option.not_mem_none, or_false, Option.mem_some]
    constructor
    · rintro ⟨s, hs, rfl⟩
      by_cases hsr : s = r
      · exact .inr (hsr ▸ rfl)
      · exact .inl ⟨s, ⟨hs, hsr⟩, rfl⟩
    · rintro (⟨s, ⟨hs, -⟩, hsid⟩ | hid)
      · exact ⟨s, hs, hsid⟩
      · exact ⟨r, hr, hid⟩
  · intro s hs
    obtain ⟨hb, hn, ht⟩ := h.row s ((hmem s).mp hs).1
    refine ⟨(hsame.isLive_iff _).mpr hb, hn, fun v hv => ?_⟩
    rw [hsame.isLive_iff, h.isBasic_detach hr]
    exact ⟨(ht v hv).1, fun hbasic => (ht v hv).2 hbasic.1⟩
  · intro v x hx
    obtain ⟨y, hy, hxid, hxdef, hx⟩ := links_detach hnodup hx
    obtain ⟨hid, hdef, hrefs, href⟩ := h.var v y hy
    obtain ⟨hxnodup, hxrefs⟩ := hx hrefs
    refine ⟨hxid.trans hid, fun id => ?_, hxnodup, fun id => ?_⟩
    · rw [hxdef]
      by_cases hb : v = r.basic
      · simp only [hb, if_true, reduceCtorEq, false_iff]
        rintro ⟨s, hs, -, hsb⟩
        obtain ⟨hst, hsr⟩ := (hmem s).mp hs
        exact hsr (h.eq_of_basic_eq hst hr hsb)
      · rw [if_neg hb, hdef]
        refine exists_congr fun s => ?_
        rw [hmem]
        constructor
        · rintro ⟨hs, hsid, hsb⟩
          exact ⟨⟨hs, fun heq => hb (heq ▸ hsb.symm)⟩, hsid, hsb⟩
        · rintro ⟨⟨hs, -⟩, hsid, hsb⟩
          exact ⟨hs, hsid, hsb⟩
    · rw [hxrefs, href]
      constructor
      · rintro ⟨hne, s, hs, hsid, hsv⟩
        exact ⟨s, (hmem s).mpr ⟨hs, fun heq => hne ⟨heq ▸ hsid, heq ▸ hsv⟩⟩, hsid, hsv⟩
      · rintro ⟨s, hs, hsid, hsv⟩
        obtain ⟨hst, hsr⟩ := (hmem s).mp hs
        refine ⟨fun heq => ?_, s, hst, hsid, hsv⟩
        exact hsr (h.eq_of_id_eq hst hr (hsid.trans heq.1.symm))
  · intro g hg
    obtain ⟨htidy, hgterm⟩ := h.goal g hg
    refine ⟨htidy, fun v hv => ?_⟩
    rw [hsame.isLive_iff, h.isBasic_detach hr]
    exact ⟨(hgterm v hv).1, fun hbasic => (hgterm v hv).2 hbasic.1⟩

end Tableau

end LexSimplex
