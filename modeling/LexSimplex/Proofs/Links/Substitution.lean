import LexSimplex.Proofs.Links.Rows

/-!
# Variables replaced and taken out

A row is rewritten by taking it out, substituting the variable that it will define in all other
rows, and putting it back in its new form. In between it is the row that is out. A variable
leaves a tableau with the row that defines it and with its terms.

## Main results

* `Tableau.Linked.substitute`, `Tableau.Linked.redefine`, `Tableau.Linked.purge`,
  `Tableau.Linked.discard`: links are kept.
* `Tableau.Linked.rows_substitute`: in a linked tableau a substitution reaches every row.
-/

namespace LexSimplex

variable {K Q : Type}

/-! ### A variable replaced -/

/-- A row with a variable replaced in its expression. -/
def Row.substitute [Coefficient K] (r : Row K) (v : VarId) (d : LinExpr K) : Row K :=
  { r with expr := r.expr.substitute v d }

/-- A variable that agrees with a row on whether it has a term there. -/
def Variable.agree (w : VarId) (x : Variable Q) (r : Row K) : Variable Q :=
  if r.expr.contains w then x.addRef r.id else x.removeRef r.id

namespace Variable

/-- A variable that was made to agree with distinct rows lists those of them in which it has a
term, and of other rows those that it listed before. -/
theorem foldl_agree (w : VarId) {rows : List (Row K)} (h : (rows.map Row.id).Nodup)
    (x : Variable Q) :
    (rows.foldl (agree w) x).id = x.id ∧
      (rows.foldl (agree w) x).core = x.core ∧
      (rows.foldl (agree w) x).definition = x.definition ∧
      (x.refs.Nodup → (rows.foldl (agree w) x).refs.Nodup ∧
        ∀ id, id ∈ (rows.foldl (agree w) x).refs ↔
          (∃ r ∈ rows, r.id = id ∧ w ∈ r.expr.vars) ∨ ((∀ r ∈ rows, r.id ≠ id) ∧ id ∈ x.refs)) := by
  induction rows generalizing x with
  | nil => exact ⟨rfl, rfl, rfl, fun hn => ⟨hn, fun id => by simp⟩⟩
  | cons r rows ih =>
      obtain ⟨hr, hrows⟩ := List.nodup_cons.mp h
      obtain ⟨hid, hcore, hdef, hrefs⟩ := ih hrows (agree w x r)
      rw [List.foldl_cons]
      rw [agree] at hid hcore hdef hrefs ⊢
      by_cases hw : r.expr.contains w
      · rw [if_pos hw] at hid hcore hdef hrefs ⊢
        refine ⟨hid.trans (id_addRef x r.id), hcore.trans (core_addRef x r.id),
          hdef.trans (definition_addRef x r.id), fun hn => ?_⟩
        obtain ⟨hn', hmem⟩ := hrefs (nodup_refs_addRef hn r.id)
        refine ⟨hn', fun id => ?_⟩
        rw [hmem, mem_refs_addRef]
        have hwv : w ∈ r.expr.vars := LinExpr.contains_iff.mp hw
        by_cases hid : r.id = id
        · subst hid
          have hnot : ∀ s ∈ rows, s.id ≠ r.id := fun s hs heq =>
            hr (heq ▸ List.mem_map_of_mem hs)
          exact iff_of_true (.inr ⟨hnot, .inl rfl⟩) (.inl ⟨r, List.mem_cons_self, rfl, hwv⟩)
        · simp [hid, Ne.symm hid]
      · rw [if_neg hw] at hid hcore hdef hrefs ⊢
        refine ⟨hid, hcore.trans (core_removeRef x r.id),
          hdef.trans (definition_removeRef x r.id), fun hn => ?_⟩
        obtain ⟨hn', hmem⟩ := hrefs (nodup_refs_removeRef hn r.id)
        refine ⟨hn', fun id => ?_⟩
        rw [hmem, mem_refs_removeRef hn]
        have hwv : w ∉ r.expr.vars := fun hwv => hw (LinExpr.contains_iff.mpr hwv)
        by_cases hid : r.id = id
        · subst hid
          simp [hwv]
        · simp [hid, Ne.symm hid]

end Variable

namespace Tableau

variable {t : Tableau K Q} {r : Row K} {d : LinExpr K}

/-- A variable among `vs` is made to agree with the row. -/
theorem get?_relink {vs : List VarId} (h : vs.Nodup) (r : Row K) (p : VariablePool Q)
    (w : VarId) : (relink vs r p).get? w =
      if w ∈ vs then (p.get? w).map fun x => x.agree w r else p.get? w :=
  VariablePool.get?_foldl_modify h (fun v x => x.agree v r) p w

/-- Relinking some variables to some rows changes what is found at their handles only. -/
theorem get?_foldl_relink {vs : List VarId} (h : vs.Nodup) (rows : List (Row K))
    (p : VariablePool Q) (w : VarId) :
    (rows.foldl (fun p r => relink vs r p) p).get? w =
      if w ∈ vs then (p.get? w).map fun x => rows.foldl (Variable.agree w) x
      else p.get? w := by
  induction rows generalizing p with
  | nil => simp
  | cons r rows ih =>
      rw [List.foldl_cons, ih, get?_relink h]
      by_cases hw : w ∈ vs
      · simp [hw, Function.comp_def]
      · simp [hw]

/-- Relinking leaves the mark where it was. -/
theorem highWater_foldl_relink (vs : List VarId) (rows : List (Row K))
    (p : VariablePool Q) :
    (rows.foldl (fun p r => relink vs r p) p).slots.highWater = p.slots.highWater := by
  induction rows generalizing p with
  | nil => rfl
  | cons r rows ih =>
      exact (ih _).trans (VariablePool.highWater_foldl_modify vs (fun v x => x.agree v r) p)

/-! ### What purging consists of -/

/-- The row that defines a variable taken out for good, if there is one. -/
def undefine (t : Tableau K Q) (v : VarId) : Tableau K Q :=
  match t.definition? v with
  | none => t
  | some r => t.dropRow r

/-- The terms of a variable taken out of rows and objectives. -/
def forget (t : Tableau K Q) (v : VarId) : Tableau K Q :=
  { t with
    rows := t.mapRows (t.refs v) (·.without v)
    vars := t.vars.modify v fun x => { x with refs := [] }
    goal := t.goal.without v
    phaseOne := t.phaseOne.map (·.without v) }

/-- Purging a variable drops its row, then takes its terms out. -/
theorem purge_eq (t : Tableau K Q) (v : VarId) : t.purge v = (t.undefine v).forget v :=
  rfl

/-- Taking the terms of a variable out takes them out of the objectives. -/
theorem objectives_forget (t : Tableau K Q) (v : VarId) :
    (t.forget v).objectives = t.objectives.map (·.without v) := by
  rw [objectives, objectives, forget]
  cases t.phaseOne <;> rfl

/-- Taking the terms of a variable out keeps the variables. -/
theorem sameVars_forget (t : Tableau K Q) (v : VarId) : t.SameVars (t.forget v) := by
  refine ⟨fun w => ?_, Nat.le_of_eq (Pool.highWater_modify _ _ _).symm⟩
  have hget : (t.forget v).vars.get? w = _ := VariablePool.get?_modify t.vars v _ w
  rw [hget]
  by_cases hw : w = v
  · rw [if_pos hw, Option.map_map]
    rfl
  · rw [if_neg hw]

variable [Coefficient K]

/-- The rows that a substitution visits, as they are afterwards. -/
def touched (t : Tableau K Q) (v : VarId) (d : LinExpr K) : List (Row K) :=
  (t.refs v).filterMap fun id =>
    (t.mapRows (t.refs v) (·.substitute v d)).find? fun r => r.id = id

@[simp] theorem rowSlots_substitute (t : Tableau K Q) (v : VarId) (d : LinExpr K) :
    (t.substitute v d).rowSlots = t.rowSlots :=
  rfl

/-- Replacing a variable replaces it in the objectives. -/
theorem objectives_substitute (t : Tableau K Q) (v : VarId) (d : LinExpr K) :
    (t.substitute v d).objectives = t.objectives.map (·.substitute v d) := by
  rw [objectives, objectives, substitute]
  cases t.phaseOne <;> rfl

/-- In a linked tableau a substitution reaches every row. -/
theorem Linked.rows_substitute {out : Option RowId} (h : t.Linked out) (v : VarId)
    (d : LinExpr K) : (t.substitute v d).rows = t.rows.map (·.substitute v d) := by
  refine List.map_congr_left fun r hr => ?_
  by_cases hv : r.id ∈ t.refs v
  · rw [if_pos hv]
    rfl
  · have hnot : v ∉ r.expr.vars := fun hmem => hv (h.mem_refs.mpr ⟨r, hr, rfl, hmem⟩)
    rw [if_neg hv, Row.substitute, LinExpr.substitute_of_notMem hnot]

/-- Replacing a variable leaves the handles of rows, in their order. -/
theorem Linked.ids_substitute {out : Option RowId} (h : t.Linked out) (v : VarId)
    (d : LinExpr K) : (t.substitute v d).rows.map Row.id = t.rows.map Row.id := by
  rw [h.rows_substitute, List.map_map]
  rfl

/-- Replacing a variable leaves the same variables basic. -/
theorem Linked.isBasic_substitute {out : Option RowId} (h : t.Linked out) (v : VarId)
    (d : LinExpr K) (w : VarId) : (t.substitute v d).IsBasic w ↔ t.IsBasic w := by
  simp only [IsBasic, h.rows_substitute, List.mem_map, exists_exists_and_eq_and, Row.substitute]

/-- The rows visited are those in which the variable had a term. -/
theorem Linked.mem_touched {out : Option RowId} (h : t.Linked out) (v : VarId)
    (d : LinExpr K) (s : Row K) :
    s ∈ t.touched v d ↔ ∃ r ∈ t.rows, v ∈ r.expr.vars ∧ r.substitute v d = s := by
  have hrows : t.mapRows (t.refs v) (·.substitute v d) = t.rows.map (·.substitute v d) :=
    h.rows_substitute v d
  have hfind : ∀ id s, ((t.rows.map (·.substitute v d)).find? fun r => r.id = id) = some s ↔
      ∃ r, t.row? id = some r ∧ r.substitute v d = s := by
    intro id s
    rw [List.find?_map, Option.map_eq_some_iff]
    rfl
  rw [touched]
  rw [List.mem_filterMap, hrows]
  constructor
  · rintro ⟨id, hid, hs⟩
    obtain ⟨r, hr, rfl⟩ := (hfind id s).mp hs
    obtain ⟨hrt, rfl⟩ := h.row?_eq_some_iff.mp hr
    obtain ⟨r', hr', hid', hv⟩ := h.mem_refs.mp hid
    obtain rfl := h.eq_of_id_eq hr' hrt hid'
    exact ⟨r', hr', hv, rfl⟩
  · rintro ⟨r, hr, hv, rfl⟩
    refine ⟨r.id, h.mem_refs.mpr ⟨r, hr, rfl, hv⟩, (hfind _ _).mpr ⟨r, ?_, rfl⟩⟩
    exact h.row?_eq_some_iff.mpr ⟨hr, rfl⟩

/-- No row is visited twice. -/
theorem Linked.nodup_touched {out : Option RowId} (h : t.Linked out) (v : VarId)
    (d : LinExpr K) : ((t.touched v d).map Row.id).Nodup := by
  have hsub : ((t.touched v d).map Row.id).Sublist (t.refs v) := by
    rw [touched]
    generalize t.mapRows (t.refs v) (·.substitute v d) = rows
    induction t.refs v with
    | nil => exact .slnil
    | cons id ids ih =>
        cases hfind : rows.find? fun r => r.id = id with
        | none =>
            simp only [List.filterMap_cons, hfind]
            exact ih.cons id
        | some r =>
            have hid : r.id = id := by simpa using List.find?_some hfind
            simp only [List.filterMap_cons, hfind, List.map_cons, hid]
            exact ih.cons_cons id
  exact (h.nodup_refs v).sublist hsub

/-- Replacing a variable gives the variables their links to the rows that were visited, and changes
nothing else about them. -/
theorem get?_substitute (h : d.vars.Nodup) (v w : VarId) :
    (t.substitute v d).vars.get? w = (t.vars.get? w).map fun x =>
      let x := if w = v then { x with refs := [] } else x
      if w ∈ d.vars then (t.touched v d).foldl (Variable.agree w) x else x := by
  have hvars : (t.substitute v d).vars = (t.touched v d).foldl
      (fun p r => relink d.vars r p) (t.vars.modify v fun x => { x with refs := [] }) := rfl
  rw [hvars, get?_foldl_relink h, VariablePool.get?_modify]
  by_cases hw : w = v
  · subst hw
    by_cases hd : w ∈ d.vars <;> simp [hd, Function.comp_def]
  · by_cases hd : w ∈ d.vars <;> simp [hd, hw]

/-- Replacing a variable leaves the mark where it was. -/
@[simp] theorem highWater_substitute (t : Tableau K Q) (v : VarId) (d : LinExpr K) :
    (t.substitute v d).highWater = t.highWater :=
  (highWater_foldl_relink d.vars (t.touched v d) _).trans (Pool.highWater_modify _ _ _)

/-- Replacing a variable keeps the variables. -/
theorem Linked.sameVars_substitute {out : Option RowId} (h : t.Linked out)
    (hd : d.vars.Nodup) (v : VarId) : t.SameVars (t.substitute v d) := by
  refine ⟨fun w => ?_, Nat.le_of_eq (highWater_substitute t v d).symm⟩
  rw [get?_substitute hd, Option.map_map]
  refine congrArg (fun f => (t.vars.get? w).map f) (funext fun x => ?_)
  have hcore := fun x => (Variable.foldl_agree (Q := Q) w (h.nodup_touched v d) x).2.1
  simp only [Function.comp_apply]
  by_cases hw : w = v
  · by_cases hwd : w ∈ d.vars
    · rw [if_pos hw, if_pos hwd, hcore]
      rfl
    · rw [if_pos hw, if_neg hwd]
      rfl
  · by_cases hwd : w ∈ d.vars
    · rw [if_neg hw, if_pos hwd, hcore]
    · rw [if_neg hw, if_neg hwd]

/-- The links of a variable after a substitution: the definition stays, and the variable lists
the rows in which it has a term now. -/
theorem Linked.links_substitute {out : Option RowId} (h : t.Linked out) {v w : VarId}
    (hd : d.vars.Nodup) (hvd : v ∉ d.vars) {x : Variable Q}
    (hx : (t.substitute v d).vars.get? w = some x) :
    ∃ y, t.vars.get? w = some y ∧ x.id = y.id ∧ x.definition = y.definition ∧ x.refs.Nodup ∧
      ∀ id, id ∈ x.refs ↔ ∃ r ∈ t.rows, r.id = id ∧ w ∈ (r.expr.substitute v d).vars := by
  rw [get?_substitute hd] at hx
  obtain ⟨y, hy, rfl⟩ := Option.map_eq_some_iff.mp hx
  obtain ⟨-, -, hrefs, href⟩ := h.var w y hy
  refine ⟨y, hy, ?_⟩
  by_cases hwv : w = v
  · subst hwv
    simp only [if_true, if_neg hvd]
    refine ⟨trivial, trivial, List.nodup_nil, fun id => ?_⟩
    simp only [List.not_mem_nil, false_iff]
    rintro ⟨r, hr, -, hmem⟩
    rcases LinExpr.mem_of_mem_substitute (h.row r hr).nodup hmem with hmem | hmem
    · exact hvd hmem
    · exact hmem.1 rfl
  · by_cases hwd : w ∈ d.vars
    · simp only [if_neg hwv, if_pos hwd]
      obtain ⟨hid, -, hdef, hlist⟩ := Variable.foldl_agree w (h.nodup_touched v d) y
      obtain ⟨hnodup, hmem⟩ := hlist hrefs
      refine ⟨hid, hdef, hnodup, fun id => ?_⟩
      rw [hmem, href]
      constructor
      · rintro (⟨s, hs, rfl, hws⟩ | ⟨hnot, r, hr, rfl, hwr⟩)
        · obtain ⟨r, hr, -, rfl⟩ := (h.mem_touched v d s).mp hs
          exact ⟨r, hr, rfl, hws⟩
        · refine ⟨r, hr, rfl, ?_⟩
          have hv : v ∉ r.expr.vars := fun hv =>
            hnot _ ((h.mem_touched v d _).mpr ⟨r, hr, hv, rfl⟩) rfl
          rwa [LinExpr.substitute_of_notMem hv]
      · rintro ⟨r, hr, rfl, hwr⟩
        by_cases hv : v ∈ r.expr.vars
        · exact .inl ⟨r.substitute v d, (h.mem_touched v d _).mpr ⟨r, hr, hv, rfl⟩, rfl, hwr⟩
        · rw [LinExpr.substitute_of_notMem hv] at hwr
          refine .inr ⟨fun s hs hsid => ?_, r, hr, rfl, hwr⟩
          obtain ⟨r', hr', hv', rfl⟩ := (h.mem_touched v d s).mp hs
          exact hv (h.eq_of_id_eq hr' hr hsid ▸ hv')
    · simp only [if_neg hwv, if_neg hwd]
      refine ⟨trivial, trivial, hrefs, fun id => ?_⟩
      rw [href]
      refine exists_congr fun r => and_congr_right fun hr => and_congr_right fun _ => ?_
      rw [LinExpr.mem_vars_substitute_of_notMem (h.row r hr).nodup hwd]
      simp [hwv]

/-- A variable that is not basic may be replaced by an expression of such variables. -/
theorem Linked.substitute {out : Option RowId} (h : t.Linked out) {v : VarId}
    (hd : d.vars.Nodup)
    (hterm : ∀ w ∈ d.vars, w ≠ v ∧ t.vars.isLive w ∧ ¬t.IsBasic w) :
    (t.substitute v d).Linked out := by
  have hvd : v ∉ d.vars := fun hv => (hterm v hv).1 rfl
  have hsame : t.SameVars (t.substitute v d) := h.sameVars_substitute hd v
  have hbasic := h.isBasic_substitute v d
  have hmem : ∀ s, s ∈ (t.substitute v d).rows ↔ ∃ r ∈ t.rows, r.substitute v d = s := by
    intro s
    rw [h.rows_substitute, List.mem_map]
  refine ⟨h.ids_substitute v d ▸ h.nodup_ids, ?_, ?_, ?_, ?_, ?_⟩
  · intro id hid s hs
    obtain ⟨r, hr, rfl⟩ := (hmem s).mp hs
    exact h.out_fresh id hid r hr
  · intro id
    rw [rowSlots_substitute, h.slot_iff id]
    simp only [hmem, exists_exists_and_eq_and]
    rfl
  · intro s hs
    obtain ⟨r, hr, rfl⟩ := (hmem s).mp hs
    obtain ⟨hb, hn, ht⟩ := h.row r hr
    refine ⟨(hsame.isLive_iff _).mpr hb, LinExpr.nodup_vars_substitute hn v d, fun w hw => ?_⟩
    rw [hsame.isLive_iff, hbasic]
    rcases LinExpr.mem_of_mem_substitute hn hw with hw | hw
    · exact (hterm w hw).2
    · exact ht w hw.2
  · intro w x hx
    obtain ⟨y, hy, hxid, hxdef, hxnodup, hxrefs⟩ := h.links_substitute hd hvd hx
    obtain ⟨hid, hdef, -, -⟩ := h.var w y hy
    refine ⟨hxid.trans hid, fun id => ?_, hxnodup, fun id => ?_⟩
    · rw [hxdef, hdef]
      simp only [hmem, exists_exists_and_eq_and]
      rfl
    · rw [hxrefs]
      simp only [hmem, exists_exists_and_eq_and]
      rfl
  · intro g hg
    rw [objectives_substitute] at hg
    obtain ⟨g, hg', rfl⟩ := List.mem_map.mp hg
    obtain ⟨htidy, hgterm⟩ := h.goal g hg'
    refine ⟨htidy.substitute v d, fun w hw => ?_⟩
    rw [hsame.isLive_iff, hbasic]
    rcases htidy.mem_of_mem_substitute hw with hw | hw
    · exact (hterm w hw).2
    · exact hgterm w hw.2

/-- A variable that is not basic is absent once it was replaced. -/
theorem Linked.absent_substitute {out : Option RowId} (h : t.Linked out) {v : VarId}
    (hv : ¬t.IsBasic v) (hvd : v ∉ d.vars) : (t.substitute v d).Absent v := by
  refine ⟨fun hb => hv ((h.isBasic_substitute v d v).mp hb), ?_, ?_⟩
  · intro s hs hmem
    rw [h.rows_substitute] at hs
    obtain ⟨r, hr, rfl⟩ := List.mem_map.mp hs
    rcases LinExpr.mem_of_mem_substitute (h.row r hr).nodup hmem with hmem | hmem
    · exact hvd hmem
    · exact hmem.1 rfl
  · intro g hg hmem
    rw [objectives_substitute] at hg
    obtain ⟨g, hg', rfl⟩ := List.mem_map.mp hg
    rcases (h.goal g hg').tidy.mem_of_mem_substitute hmem with hmem | hmem
    · exact hvd hmem
    · exact hmem.1 rfl

/-! ### A row made to define another variable -/

section Redefine

variable {v : VarId}

/-- The row that is put back when `r` is made to define `v`. -/
def redefined (r : Row K) (v : VarId) : Row K :=
  ⟨r.id, v, r.expr.exchange r.basic v⟩

/-- An exchange detaches a row, replaces the variable that enters, and attaches the row again,
solved for that. -/
theorem redefine_eq (t : Tableau K Q) (r : Row K) (v : VarId) :
    t.redefine r v =
      ((t.detach r).substitute v (redefined r v).expr).attach (redefined r v) :=
  rfl

/-- What may stand in the row that is put back: the variable that left, and the others that had
a term. -/
theorem Linked.term_redefined (h : t.Linked none) (hr : r ∈ t.rows) {w : VarId}
    (hw : w ∈ (redefined r v).expr.vars) :
    w ≠ v ∧ (t.detach r).vars.isLive w ∧ ¬(t.detach r).IsBasic w := by
  obtain ⟨hb, hnodup, hterm⟩ := h.row r hr
  rw [(SameVars.detach t hnodup).isLive_iff, h.isBasic_detach hr]
  obtain ⟨hwv, rfl | hw⟩ := LinExpr.mem_of_mem_exchange hnodup hw
  · exact ⟨hwv, hb, fun hbasic => hbasic.2 rfl⟩
  · exact ⟨hwv, (hterm w hw).1, fun hbasic => (hterm w hw).2 hbasic.1⟩

/-- A row that is solved for another variable names none twice. -/
theorem Linked.nodup_redefined (h : t.Linked none) (hr : r ∈ t.rows) :
    (redefined r v).expr.vars.Nodup :=
  LinExpr.nodup_vars_exchange (h.row r hr).nodup r.basic v

/-- The rows after one of them was made to define another variable. -/
theorem Linked.mem_rows_redefine (h : t.Linked none) (hr : r ∈ t.rows) (s : Row K) :
    s ∈ (t.redefine r v).rows ↔
      (∃ q ∈ t.rows, q ≠ r ∧ q.substitute v (redefined r v).expr = s) ∨ s = redefined r v := by
  rw [redefine_eq, rows_attach, (h.detach hr).rows_substitute, List.mem_append, List.mem_map,
    List.mem_singleton]
  simp only [h.mem_rows_detach hr, and_assoc]

/-- The basic variables after a row was made to define another of its variables. -/
theorem Linked.isBasic_redefine (h : t.Linked none) (hr : r ∈ t.rows) (v w : VarId) :
    (t.redefine r v).IsBasic w ↔ w = v ∨ (t.IsBasic w ∧ w ≠ r.basic) := by
  constructor
  · rintro ⟨s, hs, rfl⟩
    rcases (h.mem_rows_redefine hr s).mp hs with ⟨q, hq, hqr, rfl⟩ | rfl
    · exact .inr ⟨⟨q, hq, rfl⟩, fun hb => hqr (h.eq_of_basic_eq hq hr hb)⟩
    · exact .inl rfl
  · rintro (rfl | ⟨⟨q, hq, rfl⟩, hne⟩)
    · exact ⟨_, (h.mem_rows_redefine hr _).mpr (.inr rfl), rfl⟩
    · exact ⟨_, (h.mem_rows_redefine hr _).mpr (.inl ⟨q, hq, fun hqr => hne (hqr ▸ rfl), rfl⟩), rfl⟩

/-- An exchange keeps the variables. -/
theorem Linked.sameVars_redefine (h : t.Linked none) (hr : r ∈ t.rows) :
    t.SameVars (t.redefine r v) := by
  have hnodup := h.nodup_redefined (v := v) hr
  exact ((SameVars.detach t (h.row r hr).nodup).trans
    ((h.detach hr).sameVars_substitute hnodup v)).trans (SameVars.attach _ hnodup)

/-- A row may be made to define any variable that has a term in it. -/
theorem Linked.redefine (h : t.Linked none) (hr : r ∈ t.rows) (hv : v ∈ r.expr.vars) :
    (t.redefine r v).Linked none := by
  have hnodup := h.nodup_redefined (v := v) hr
  have hout := h.detach hr
  have hsame := hout.sameVars_substitute hnodup v
  have hdetach := SameVars.detach t (h.row r hr).nodup
  obtain ⟨hlive, hbasic⟩ := (h.row r hr).term v hv
  have hterm := fun w => h.term_redefined (v := v) hr (w := w)
  rw [redefine_eq]
  refine Linked.attach (r := redefined r v) (hout.substitute hnodup hterm) ?_ ?_ hnodup
    fun w hw => ?_
  · exact (hsame.isLive_iff v).mpr ((hdetach.isLive_iff v).mpr hlive)
  · refine hout.absent_substitute (fun hb => hbasic ?_) fun hmem => (hterm v hmem).1 rfl
    exact ((h.isBasic_detach hr v).mp hb).1
  · obtain ⟨hwv, hwlive, hwbasic⟩ := hterm w hw
    exact ⟨hwv, (hsame.isLive_iff w).mpr hwlive,
      fun hb => hwbasic ((hout.isBasic_substitute v _ w).mp hb)⟩

@[simp] theorem constraints_redefine (t : Tableau K Q) (r : Row K) (v : VarId) :
    (t.redefine r v).constraints = t.constraints :=
  constraints_attach _ _

@[simp] theorem entered_redefine (t : Tableau K Q) (r : Row K) (v : VarId) :
    (t.redefine r v).entered = t.entered :=
  entered_attach _ _

end Redefine

/-! ### Rows and variables that go -/

/-- A row taken out for good. -/
theorem Linked.dropRow (h : t.Linked none) (hr : r ∈ t.rows) : (t.dropRow r).Linked none :=
  (h.detach hr).releaseRow

/-- Dropping a row leaves the others. -/
theorem Linked.mem_rows_dropRow (h : t.Linked none) (hr : r ∈ t.rows) (s : Row K) :
    s ∈ (t.dropRow r).rows ↔ s ∈ t.rows ∧ s ≠ r :=
  h.mem_rows_detach hr s

/-- Dropping a row keeps the variables. -/
theorem Linked.sameVars_dropRow (h : t.Linked none) (hr : r ∈ t.rows) :
    t.SameVars (t.dropRow r) :=
  (SameVars.detach t (h.row r hr).nodup).trans (.of_eq rfl)

/-- The rows that do not define `v` are left. -/
theorem Linked.mem_rows_undefine (h : t.Linked none) (v : VarId) (s : Row K) :
    s ∈ (t.undefine v).rows ↔ s ∈ t.rows ∧ s.basic ≠ v := by
  rw [undefine]
  cases hdef : t.definition? v with
  | none =>
      have hv := h.definition?_eq_none_iff.mp hdef
      exact ⟨fun hs => ⟨hs, fun hb => hv ⟨s, hs, hb⟩⟩, And.left⟩
  | some r =>
      obtain ⟨hr, rfl⟩ := h.definition?_eq_some_iff.mp hdef
      rw [h.mem_rows_dropRow hr]
      exact and_congr_right fun hs =>
        not_congr ⟨fun heq => heq ▸ rfl, fun hb => h.eq_of_basic_eq hs hr hb⟩

/-- Dropping the row of a variable keeps links and variables, and the variable is basic no more. -/
theorem Linked.undefine (h : t.Linked none) (v : VarId) :
    (t.undefine v).Linked none ∧ t.SameVars (t.undefine v) ∧ ¬(t.undefine v).IsBasic v := by
  have hmem := h.mem_rows_undefine v
  have hbasic : ¬(t.undefine v).IsBasic v := fun ⟨s, hs, hb⟩ => ((hmem s).mp hs).2 hb
  refine ⟨?_, ?_, hbasic⟩
  · rw [Tableau.undefine]
    cases hdef : t.definition? v with
    | none => exact h
    | some r => exact h.dropRow (h.definition?_eq_some_iff.mp hdef).1
  · rw [Tableau.undefine]
    cases hdef : t.definition? v with
    | none => exact SameVars.refl t
    | some r => exact h.sameVars_dropRow (h.definition?_eq_some_iff.mp hdef).1

/-- In a linked tableau every row loses the term. -/
theorem Linked.rows_forget {out : Option RowId} (h : t.Linked out) (v : VarId) :
    (t.forget v).rows = t.rows.map fun r => { r with expr := r.expr.without v } := by
  refine List.map_congr_left fun r hr => ?_
  by_cases hv : r.id ∈ t.refs v
  · rw [if_pos hv]
  · have hnot : v ∉ r.expr.vars := fun hmem => hv (h.mem_refs.mpr ⟨r, hr, rfl, hmem⟩)
    rw [if_neg hv, LinExpr.without_of_notMem hnot]

/-- Taking the terms of a variable out leaves the same variables basic. -/
theorem Linked.isBasic_forget {out : Option RowId} (h : t.Linked out) (v w : VarId) :
    (t.forget v).IsBasic w ↔ t.IsBasic w := by
  simp only [IsBasic, h.rows_forget, List.mem_map, exists_exists_and_eq_and]

/-- A variable that is not basic may be forgotten, and is absent afterwards. -/
theorem Linked.forget {out : Option RowId} (h : t.Linked out) {v : VarId}
    (hv : ¬t.IsBasic v) : (t.forget v).Linked out ∧ (t.forget v).Absent v := by
  have hsame := sameVars_forget t v
  have hbasic := h.isBasic_forget v
  have hmem : ∀ s, s ∈ (t.forget v).rows ↔
      ∃ r ∈ t.rows, ({ r with expr := r.expr.without v } : Row K) = s := by
    intro s
    rw [h.rows_forget, List.mem_map]
  refine ⟨⟨?_, ?_, ?_, ?_, ?_, ?_⟩, ⟨fun hb => hv ((hbasic v).mp hb), ?_, ?_⟩⟩
  · rw [h.rows_forget, List.map_map]
    exact h.nodup_ids
  · intro id hid s hs
    obtain ⟨r, hr, rfl⟩ := (hmem s).mp hs
    exact h.out_fresh id hid r hr
  · intro id
    simp only [hmem, exists_exists_and_eq_and]
    exact h.slot_iff id
  · intro s hs
    obtain ⟨r, hr, rfl⟩ := (hmem s).mp hs
    obtain ⟨hb, hn, ht⟩ := h.row r hr
    refine ⟨(hsame.isLive_iff _).mpr hb, LinExpr.nodup_vars_without hn v, fun w hw => ?_⟩
    rw [hsame.isLive_iff, hbasic]
    exact ht w ((LinExpr.mem_vars_without hn v w).mp hw).2
  · intro w x hx
    have hget : (t.forget v).vars.get? w = _ := VariablePool.get?_modify t.vars v _ w
    rw [hget] at hx
    by_cases hw : w = v
    · subst hw
      rw [if_pos rfl] at hx
      obtain ⟨y, hy, rfl⟩ := Option.map_eq_some_iff.mp hx
      obtain ⟨hid, hdef, -, -⟩ := h.var w y hy
      refine ⟨hid, fun id => ?_, List.nodup_nil, fun id => ?_⟩
      · simp only [hmem, exists_exists_and_eq_and]
        exact hdef id
      · simp only [List.not_mem_nil, false_iff]
        rintro ⟨s, hs, -, hws⟩
        obtain ⟨r, hr, rfl⟩ := (hmem s).mp hs
        exact ((LinExpr.mem_vars_without (h.row r hr).nodup w w).mp hws).1 rfl
    · rw [if_neg hw] at hx
      obtain ⟨hid, hdef, hnodup, hrefs⟩ := h.var w x hx
      refine ⟨hid, fun id => ?_, hnodup, fun id => ?_⟩
      · simp only [hmem, exists_exists_and_eq_and]
        exact hdef id
      · simp only [hmem, exists_exists_and_eq_and]
        rw [hrefs]
        refine exists_congr fun r => and_congr_right fun hr => and_congr_right fun _ => ?_
        rw [LinExpr.mem_vars_without (h.row r hr).nodup]
        simp [hw]
  · intro g hg
    rw [objectives_forget] at hg
    obtain ⟨g, hg', rfl⟩ := List.mem_map.mp hg
    obtain ⟨htidy, hgterm⟩ := h.goal g hg'
    refine ⟨htidy.without v, fun w hw => ?_⟩
    rw [hsame.isLive_iff, hbasic]
    exact hgterm w ((htidy.mem_vars_without v w).mp hw).2
  · intro s hs hws
    obtain ⟨r, hr, rfl⟩ := (hmem s).mp hs
    exact ((LinExpr.mem_vars_without (h.row r hr).nodup v v).mp hws).1 rfl
  · intro g hg hwg
    rw [objectives_forget] at hg
    obtain ⟨g, hg', rfl⟩ := List.mem_map.mp hg
    exact (((h.goal g hg').tidy.mem_vars_without v v).mp hwg).1 rfl

/-- Purging a variable keeps the variables. -/
theorem Linked.sameVars_purge (h : t.Linked none) (v : VarId) : t.SameVars (t.purge v) :=
  (h.undefine v).2.1.trans (sameVars_forget _ v)

/-- Any variable may be taken out, and is absent afterwards. -/
theorem Linked.purge (h : t.Linked none) (v : VarId) :
    (t.purge v).Linked none ∧ (t.purge v).Absent v :=
  (h.undefine v).1.forget (h.undefine v).2.2

/-- Any variable may be taken out and released. -/
theorem Linked.discard (h : t.Linked none) (v : VarId) : (t.discard v).Linked none :=
  (h.purge v).1.release (h.purge v).2

/-- What is left of the rows where a variable was discarded. -/
theorem Linked.mem_rows_discard (h : t.Linked none) (v : VarId) (s : Row K) :
    s ∈ (t.discard v).rows ↔
      ∃ q ∈ t.rows, q.basic ≠ v ∧ { q with expr := q.expr.without v } = s := by
  have hrows : (t.discard v).rows =
      (t.undefine v).rows.map fun r => { r with expr := r.expr.without v } := by
    have hpurge : (t.discard v).rows = (t.purge v).rows := rfl
    rw [hpurge, purge_eq, (h.undefine v).1.rows_forget]
  simp only [hrows, List.mem_map, h.mem_rows_undefine, and_assoc]

/-- Discarding variables keeps the links. -/
theorem Linked.foldl_discard (h : t.Linked none) (vs : List VarId) :
    (vs.foldl Tableau.discard t).Linked none := by
  induction vs generalizing t with
  | nil => exact h
  | cons v vs ih => exact ih (h.discard v)

/-- A variable taken out of a linked tableau is not live, and the others are kept. -/
theorem Linked.keeps_foldl_discard (h : t.Linked none) (vs : List VarId) :
    Keeps vs t (vs.foldl Tableau.discard t) := by
  suffices hfold : ∀ (ws : List VarId) (t : Tableau K Q), t.Linked none → ws ⊆ vs →
      Keeps vs t (ws.foldl Tableau.discard t) from hfold vs t h (List.Subset.refl vs)
  intro ws
  induction ws with
  | nil => exact fun t _ _ => (SameVars.refl t).keeps
  | cons w ws ih =>
      intro t h hsub
      obtain ⟨hw, hws⟩ := List.cons_subset.mp hsub
      refine Keeps.trans ⟨fun v hv _ => ?_, ?_⟩ (ih (t.discard w) (h.discard w) hws)
      · have hget : (t.discard w).vars.get? v = _ := VariablePool.get?_release _ w v
        rw [hget, if_neg (ne_of_mem_of_not_mem hw hv).symm,
          (h.sameVars_purge w).map_eq (f := Variable.role) fun _ => rfl]
      · exact Nat.le_trans (h.sameVars_purge w).highWater_le
          (Nat.le_of_eq (Pool.highWater_release _ _).symm)

end Tableau

end LexSimplex
