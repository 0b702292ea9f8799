import LexSimplex.Proofs.Drafts
import LexSimplex.Proofs.Embedding.Rows
import LexSimplex.Proofs.Numbering

/-!
# Drafts in embedded tableaux

A request of the embedded tableau is drafted in both, under its handles in each. The terms come in
the same order with the same coefficients, since the rows and values that they are read from are
copies. The variables of the draft get the next handles in both, and a renaming that takes the next
handles to the next handles covers them. The slots for the two rows need not correspond, so the
renaming is pointed from the one slot to the other.

## Main definitions

* `Renaming.pointRow`: a renaming with one row handle pointed elsewhere.
* `Renaming.Aligned`: the next handles are renamed to the next handles.
* `Draft.Matches`: a draft and its copy.

## Main results

* `Tableau.Embeds.draft`: a request drafted in both.
* `Tableau.Embeds.draft_outside`: a request of variables outside drafted in the larger one.
-/

namespace LexSimplex

namespace Renaming

/-- The renaming with the handle `i` of a row renamed to `j`. -/
def pointRow (m : Renaming) (i j : RowId) : Renaming :=
  { m with
    row := Equiv.swap (m.row i) j ∘ m.row
    row_injective := (Equiv.injective _).comp m.row_injective }

variable {m : Renaming} {i j r : RowId}

/-- Sending a row elsewhere leaves the variables where they are sent. -/
@[simp] theorem var_pointRow (m : Renaming) (i j : RowId) : (m.pointRow i j).var = m.var :=
  rfl

/-- The row is sent to where it was said to be. -/
@[simp] theorem row_pointRow_self (m : Renaming) (i j : RowId) : (m.pointRow i j).row i = j :=
  Equiv.swap_apply_left (m.row i) j

/-- The other rows stay where they were sent. -/
theorem row_pointRow_of_ne (hi : r ≠ i) (hj : m.row r ≠ j) : (m.pointRow i j).row r = m.row r :=
  Equiv.swap_apply_of_ne_of_ne (fun h => hi (m.row_injective h)) hj

/-- The handles from `n` on are renamed to those from `k` on. -/
def Aligned (m : Renaming) (n k : Nat) : Prop :=
  ∀ i, m.var ⟨n + i⟩ = ⟨k + i⟩

/-- The next handle is sent to the next handle. -/
theorem Aligned.var_eq {n k : Nat} (h : m.Aligned n k) : m.var ⟨n⟩ = ⟨k⟩ :=
  h 0

/-- What is aligned stays so further on. -/
theorem Aligned.add {n k : Nat} (h : m.Aligned n k) (j : Nat) : m.Aligned (n + j) (k + j) :=
  fun i => by rw [Nat.add_assoc, Nat.add_assoc, h]

end Renaming

/-- A draft is **matched** by one with the same terms under the new handles, for the row and the
variables that they are renamed to. -/
structure Draft.Matches {K : Type} (m : Renaming) (d d' : Draft K) : Prop where
  row : d'.row = m.row d.row
  expr : d'.expr = d.expr.rename m.var
  own : d'.constraint.tag.vars = d.constraint.tag.vars.map m.var

/-- Matching drafts have matching markers. -/
theorem Draft.Matches.marker_eq {K : Type} {m : Renaming} {d d' : Draft K} (h : d.Matches m d') :
    d'.constraint.tag.marker = m.var d.constraint.tag.marker := by
  have hown := h.own
  rw [Tag.vars, Tag.vars, List.map_cons] at hown
  exact (List.cons.inj hown).1

namespace Tableau

variable {K Q : Type} [Coefficient K] {m : Renaming} {t t' u u' : Tableau K Q}
  {out out' : Option RowId} {v w : VarId} {n k : Nat}

/-- A variable that is not live is not in the goal. -/
theorem Linked.get?_goal_eq_none (ht : t.Linked out) (hv : t.vars.get? v = none) :
    t.goal.terms.get? v = none := by
  refine Assoc.get?_eq_none_iff.mpr fun hmem => ?_
  obtain ⟨x, hx⟩ := VariablePool.isLive_iff.mp ((ht.tidy_objective .goal).2 v hmem).1
  rw [hv] at hx
  exact absurd hx (by simp)

namespace Embeds

/-! ### Slots for rows -/

/-- A renaming may be pointed from a free slot to a free slot. -/
theorem pointRow (h : t.Embeds m u) (ht : t.Linked out) {i j : RowId}
    (hi : ∀ r ∈ t.rows, r.id ≠ i) (hj : ∀ r ∈ u.rows, r.id ≠ j) :
    t.Embeds (m.pointRow i j) u := by
  have hrow : ∀ r ∈ t.rows, (m.pointRow i j).row r.id = m.row r.id := fun r hr =>
    Renaming.row_pointRow_of_ne (hi r hr) (hj (r.rename m) (h.row r hr))
  refine ⟨fun v x hx => ?_, fun r hr => ?_, h.goal⟩
  · obtain ⟨y, hy, hmatch⟩ := h.var v x hx
    have hlinked := ht.var v x hx
    refine ⟨y, hy, hmatch.role, ?_, ?_⟩
    · rw [hmatch.definition]
      cases hdef : x.definition with
      | none => rfl
      | some id =>
        obtain ⟨r, hr, rfl, -⟩ := (hlinked.definition_iff id).mp hdef
        exact congrArg some (hrow r hr).symm
    · rw [hmatch.refs]
      refine List.map_congr_left fun id hid => ?_
      obtain ⟨r, hr, rfl, -⟩ := (hlinked.mem_refs_iff id).mp hid
      exact (hrow r hr).symm
  · have hrename : r.rename (m.pointRow i j) = r.rename m := by
      rw [Row.rename, Row.rename, hrow r hr]
      rfl
    rw [hrename]
    exact h.row r hr

/-- Slots for one more row in both, to which the renaming is pointed. -/
theorem acquireRow (h : t.Embeds m u) (ht : t.Linked none) (hu : u.Linked none) :
    t.acquireRow.2.Embeds (m.pointRow t.acquireRow.1 u.acquireRow.1) u.acquireRow.2 := by
  have hslot := h.of_eq (vars_acquireRow t) (rows_acquireRow t) (goal_acquireRow t)
    (vars_acquireRow u) (rows_acquireRow u) (goal_acquireRow u)
  exact hslot.pointRow ht.acquireRow (ht.acquireRow.out_fresh _ rfl) (hu.acquireRow.out_fresh _ rfl)

/-! ### New variables -/

omit [Coefficient K] in
/-- A new variable in each that matches the other. -/
theorem extend (h : t.Embeds m u) {x y : Variable Q}
    (hget : ∀ w, t'.vars.get? w = if w = v then some x else t.vars.get? w)
    (hget' : ∀ w, u'.vars.get? w = if w = m.var v then some y else u.vars.get? w)
    (hmatch : x.Matches m.row y) (hrows : t'.rows = t.rows) (hrows' : u'.rows = u.rows)
    (hgoal : Goal.Agree m.var (fun w => t'.vars.isLive w) t'.goal u'.goal) : t'.Embeds m u' := by
  refine ⟨fun w z hz => ?_, ?_, hgoal⟩
  · rw [hget] at hz
    by_cases hw : w = v
    · rw [if_pos hw] at hz
      obtain rfl := Option.some.inj hz
      exact ⟨y, by rw [hget', hw, if_pos rfl], hmatch⟩
    · rw [if_neg hw] at hz
      rw [hget', if_neg fun he => hw (m.var_injective he)]
      exact h.var w z hz
  · rw [hrows, hrows']
    exact h.row

variable [Scalar Q]

/-- A variable that is made in both tableaux at matching handles is in both. -/
theorem addVariable (h : t.Embeds m u) (ht : t.Linked out) (hu : u.Linked out') (kind : Kind)
    (stem stem' : Option String)
    (hv : (u.addVariable kind stem').1 = m.var (t.addVariable kind stem).1) :
    (t.addVariable kind stem).2.Embeds m (u.addVariable kind stem').2 := by
  obtain ⟨name, hget⟩ := t.get?_addVariable kind stem
  obtain ⟨name', hget'⟩ := u.get?_addVariable kind stem'
  refine h.extend (y := Variable.fresh (u.addVariable kind stem').1 kind name') hget
    (fun w => by rw [← hv]; exact hget' w) ⟨rfl, rfl, rfl⟩ (rows_addVariable ..)
    (rows_addVariable ..) fun w hw => ?_
  rw [goal_addVariable, goal_addVariable]
  rcases (t.isLive_addVariable kind stem w).mp hw with rfl | hw
  · rw [ht.get?_goal_eq_none (t.get?_addVariable_fst kind stem), ← hv,
      hu.get?_goal_eq_none (u.get?_addVariable_fst kind stem')]
  · exact h.goal w hw

/-- An error variable that is made in both tableaux at matching handles is in both, at one price. -/
theorem addError (h : t.Embeds m u) (ht : t.Linked out) (hu : u.Linked out') (s : Strength)
    (hv : (u.addError s).1 = m.var (t.addError s).1) :
    (t.addError s).2.Embeds m (u.addError s).2 := by
  have hadd := h.addVariable ht hu .error none none hv
  refine hadd.of_vars
    (f := fun w x => if w = (t.addError s).1 then { x with penalty := some s } else x)
    (g := fun w y => if w = (t.addError s).1 then { y with penalty := some s } else y)
    (fun w => VariablePool.get?_modify_of_injective Function.injective_id _ _ w _) (fun w => ?_)
    (fun w x y hxy => hxy.ite Iff.rfl ⟨hxy.role, hxy.definition, hxy.refs⟩) hadd.row ?_
  · rw [← VariablePool.get?_modify_of_injective m.var_injective, ← hv]
    rfl
  · have hagree := hadd.goal.addTerm m.var_injective
      ((ht.addVariable .error none).tidy_objective .goal).1
      ((hu.addVariable .error none).tidy_objective .goal).1 (t.addError s).1 (TierVector.unit s) 1
    rw [← hv] at hagree
    exact hagree

/-- A part that is made in both tableaux at matching handles is in both. -/
theorem makePart (h : t.Embeds m u) (ht : t.Linked out) (hu : u.Linked out') (p : Part K)
    (hv : (u.makePart p).1 = m.var (t.makePart p).1) :
    (t.makePart p).2.Embeds m (u.makePart p).2 := by
  cases p with
  | slack c => exact h.addVariable ht hu .slack none none hv
  | marker c => exact h.addVariable ht hu .constant none none hv
  | error s c => exact h.addError ht hu s hv

/-- The parts of a request joined to an expression in both. -/
theorem joinParts (h : t.Embeds m u) (ht : t.Linked out) (hu : u.Linked out') (hn : t.Filled n)
    (hk : u.Filled k) (hm : m.Aligned n k) (e : LinExpr K) (ps : List (Part K)) :
    (u.joinParts (e.rename m.var) ps).1 = (t.joinParts e ps).1.rename m.var ∧
      (u.joinParts (e.rename m.var) ps).2.1 = (t.joinParts e ps).2.1.map m.var ∧
      (t.joinParts e ps).2.2.Embeds m (u.joinParts (e.rename m.var) ps).2.2 := by
  induction ps generalizing t u e n k with
  | nil => exact ⟨rfl, rfl, h⟩
  | cons p ps ih =>
    obtain ⟨hfirst, hn'⟩ := hn.makePart p
    obtain ⟨hfirst', hk'⟩ := hk.makePart p
    have hv : (u.makePart p).1 = m.var (t.makePart p).1 := by
      rw [hfirst, hfirst', hm.var_eq]
    obtain ⟨hexpr, hvars, hembeds⟩ := ih (h.makePart ht hu p hv) (ht.makePart p) (hu.makePart p)
      hn' hk' (hm.add 1) (e.setTerm (t.makePart p).1 p.coefficient)
    rw [LinExpr.rename_setTerm m.var_injective, ← hv] at hexpr hvars hembeds
    rw [joinParts_cons, joinParts_cons, List.map_cons, ← hv, ← hvars]
    exact ⟨hexpr, rfl, hembeds⟩

/-! ### Requests drafted in both -/

variable [Precision K Q]

omit [Scalar Q] in
/-- A request reads the same in terms of both. -/
theorem express_rename (h : t.Embeds m u) (ht : t.Linked out) (hu : u.Linked out')
    {e : LinExpr K} (he : ∀ v ∈ e.vars, t.vars.isLive v) :
    u.express (e.rename m.var) = (t.express e).rename m.var := by
  have habsorb : ∀ (e : LinExpr K) (term : VarId × K), t.vars.isLive term.1 →
      u.absorb (e.rename m.var) (m.var term.1, term.2) = (t.absorb e term).rename m.var := by
    intro e term hlive
    obtain ⟨x, hx⟩ := VariablePool.isLive_iff.mp hlive
    obtain ⟨y, hy, hmatch⟩ := h.var term.1 x hx
    rw [absorb, absorb, hx, hy]
    dsimp only
    rw [hmatch.isFolded_eq, hmatch.computed_eq, h.definition?_eq ht hu hlive]
    by_cases hfold : x.isFolded
    · rw [if_pos hfold, if_pos hfold]
      rfl
    · rw [if_neg hfold, if_neg hfold]
      cases t.definition? term.1 with
      | none => exact (LinExpr.rename_addTerm m.var_injective e term.1 term.2).symm
      | some r => exact (LinExpr.rename_addScaled m.var_injective e r.expr term.2).symm
  suffices ∀ (terms : Assoc VarId K) (e : LinExpr K), (∀ v ∈ terms.keys, t.vars.isLive v) →
      (terms.mapKeys m.var).foldl u.absorb (e.rename m.var) =
        (terms.foldl t.absorb e).rename m.var from this e.terms ⟨e.constant, []⟩ he
  intro terms
  induction terms with
  | nil => exact fun _ _ => rfl
  | cons term terms ih =>
    intro e hlive
    have hstep := habsorb e term (hlive term.1 List.mem_cons_self)
    rw [List.foldl_cons, ← ih _ fun v hv => hlive v (List.mem_cons_of_mem _ hv), ← hstep]
    rfl

/-- An equation is given the sign of its constant before or after it is renamed. -/
theorem orient_rename (f : VarId → VarId) (e : LinExpr K) :
    orient (e.rename f) = (orient e).rename f := by
  rw [orient, orient, LinExpr.constant_rename]
  by_cases hneg : e.constant < 0
  · rw [if_pos hneg, if_pos hneg, LinExpr.rename_negate]
  · rw [if_neg hneg, if_neg hneg]

/-- A **request** drafted in both. -/
theorem draft (h : t.Embeds m u) (ht : t.Linked none) (hu : u.Linked none) (hn : t.Filled n)
    (hk : u.Filled k) (hm : m.Aligned n k) {request : Request K}
    (hlive : ∀ v ∈ request.expr.vars, t.vars.isLive v) (relation : Relation) :
    (t.draft request relation).1.Matches (m.pointRow t.acquireRow.1 u.acquireRow.1)
        (u.draft (request.rename m.var) relation).1 ∧
      (t.draft request relation).2.Embeds (m.pointRow t.acquireRow.1 u.acquireRow.1)
        (u.draft (request.rename m.var) relation).2 := by
  obtain ⟨tag, hdraft, htag, -⟩ := t.draft_eq request relation
  obtain ⟨tag', hdraft', htag', -⟩ := u.draft_eq (request.rename m.var) relation
  have hfill : ∀ {t : Tableau K Q} {n}, t.Filled n → t.acquireRow.2.Filled n := fun {t n} hn =>
    hn.of_isLive fun v => by rw [vars_acquireRow]
  have hparts : parts (request.rename m.var) relation = parts request relation := rfl
  obtain ⟨hexpr, hvars, hembeds⟩ := (h.acquireRow ht hu).joinParts ht.acquireRow hu.acquireRow
    (hfill hn) (hfill hk) hm (t.express request.expr) (parts request relation)
  rw [Renaming.var_pointRow, ← h.express_rename ht hu hlive, ← hparts] at hexpr hvars hembeds
  have hjoined : u.acquireRow.2.joinParts (u.express (request.expr.rename m.var))
      (parts (request.rename m.var) relation) = u.joined (request.rename m.var) relation := rfl
  rw [hdraft, hdraft']
  refine ⟨⟨(Renaming.row_pointRow_self ..).symm, ?_, ?_⟩, hembeds⟩
  · rw [hjoined] at hexpr
    show orient (u.joined (request.rename m.var) relation).1 = _
    rw [hexpr]
    exact orient_rename m.var _
  · show tag'.vars = tag.vars.map m.var
    rw [htag, htag']
    exact hvars

/-! ### Requests drafted in the larger one -/

omit [Scalar Q] in
/-- In terms of the larger tableau, an expression of variables outside has variables outside. -/
theorem express_outside (h : t.Embeds m u) (ht : t.Linked out) (hu : u.Linked out')
    {e : LinExpr K} (he : ∀ v ∈ e.vars, ¬Inside m t v) :
    ∀ w ∈ (u.express e).vars, ¬Inside m t w := by
  suffices ∀ (terms : Assoc VarId K) (e : LinExpr K), (∀ v ∈ terms.keys, ¬Inside m t v) →
      e.vars.Nodup → (∀ w ∈ e.vars, ¬Inside m t w) →
      ∀ w ∈ (terms.foldl u.absorb e).vars, ¬Inside m t w from
    this e.terms ⟨e.constant, []⟩ he List.nodup_nil fun w hw => absurd hw List.not_mem_nil
  intro terms
  induction terms with
  | nil => exact fun e _ _ hout => hout
  | cons term terms ih =>
    intro e hterms hnodup hout
    have hterm := hterms term.1 List.mem_cons_self
    have hrest : ∀ v ∈ Assoc.keys terms, ¬Inside m t v := fun v hv =>
      hterms v (List.mem_cons_of_mem _ hv)
    rw [List.foldl_cons, absorb]
    cases u.vars.get? term.1 with
    | none => exact ih e hrest hnodup hout
    | some x =>
      dsimp only
      by_cases hfold : x.isFolded
      · rw [if_pos hfold]
        exact ih _ hrest hnodup hout
      · rw [if_neg hfold]
        cases hdef : u.definition? term.1 with
        | none =>
          refine ih _ hrest (LinExpr.nodup_vars_addTerm hnodup _ _) fun w hw => ?_
          by_cases hwt : w = term.1
          · exact hwt ▸ hterm
          · exact hout w ((LinExpr.mem_vars_addTerm_of_ne hnodup hwt _).mp hw)
        | some r =>
          obtain ⟨hr, hbasic⟩ := hu.definition?_eq_some_iff.mp hdef
          refine ih _ hrest (LinExpr.nodup_vars_addScaled hnodup _ _) fun w hw => ?_
          rcases LinExpr.mem_or_mem_of_mem_addScaled hnodup hw with hw | hw
          · exact h.outside_of_row ht hu hr hterm (.inl hbasic.symm) (.inr hw)
          · exact hout w hw

omit [Precision K Q] in
/-- The goal pays for new variables only when parts are joined. -/
theorem get?_goal_joinParts (hu : u.Linked out) (e : LinExpr K) (ps : List (Part K))
    (hw : u.vars.isLive w) :
    (u.joinParts e ps).2.2.goal.terms.get? w = u.goal.terms.get? w := by
  induction ps generalizing u e with
  | nil => rfl
  | cons p ps ih =>
    have hne : w ≠ (u.makePart p).1 := by
      rintro rfl
      obtain ⟨x, hx⟩ := VariablePool.isLive_iff.mp hw
      rw [u.get?_makePart_fst p] at hx
      exact absurd hx (by simp)
    obtain ⟨name, penalty, hget⟩ := u.get?_makePart p
    have hlive : (u.makePart p).2.vars.isLive w := by
      rw [VariablePool.isLive_iff, hget, if_neg hne, ← VariablePool.isLive_iff]
      exact hw
    rw [joinParts_cons, ih (hu.makePart p) _ hlive]
    cases p with
    | slack c => exact congrArg (fun g : Goal K => g.terms.get? w) (goal_addVariable ..)
    | marker c => exact congrArg (fun g : Goal K => g.terms.get? w) (goal_addVariable ..)
    | error s c =>
      have hadd := (hu.addVariable .error none).tidy_goal.get?_addTerm (u.addError s).1
        (TierVector.unit s) 1 w
      exact (hadd.trans (if_neg hne)).trans
        (congrArg (fun g : Goal K => g.terms.get? w) (goal_addVariable ..))

/-- A request of variables outside, drafted in the larger tableau, has variables outside. -/
theorem draft_outside (h : t.Embeds m u) (ht : t.Linked out) (hu : u.Linked none)
    {request : Request K} (hout : ∀ v ∈ request.expr.vars, ¬Inside m t v) (relation : Relation) :
    t.Embeds m (u.draft request relation).2 ∧
      (∀ w ∈ (u.draft request relation).1.expr.vars, ¬Inside m t w) ∧
      ∀ w ∈ (u.draft request relation).1.constraint.tag.vars, ¬Inside m t w := by
  have hdrafted := hu.draft request relation
  have hown : ∀ w ∈ (u.draft request relation).1.constraint.tag.vars, ¬Inside m t w :=
    fun w hw hin => by
      obtain ⟨x, hx⟩ := VariablePool.isLive_iff.mp (h.isLive_of_inside hin)
      rw [hdrafted.joined.fresh w hw] at hx
      exact absurd hx (by simp)
  obtain ⟨tag, hdraft, htag, -⟩ := u.draft_eq request relation
  refine ⟨h.frame (fun v hv => ?_) (fun r hr => ?_) fun v hv => ?_, ?_, hown⟩
  · exact hdrafted.joined.old _ fun hmem => hown _ hmem ⟨v, hv, rfl⟩
  · rw [hdrafted.joined.rows]
    exact h.row r hr
  · have hlive : u.acquireRow.2.vars.isLive (m.var v) := by
      rw [vars_acquireRow]
      exact h.isLive_of_inside ⟨v, hv, rfl⟩
    rw [hdraft]
    exact (get?_goal_joinParts hu.acquireRow _ _ hlive).trans
      (congrArg (fun g : Goal K => g.terms.get? (m.var v)) (goal_acquireRow u))
  · rw [hdraft] at hown ⊢
    intro w hw
    rw [vars_orient] at hw
    rcases (u.acquireRow.2.mem_vars_joinParts (hu.express request.expr).1 _).2 w hw with hw | hw
    · exact hown w (htag ▸ hw)
    · exact h.express_outside ht hu hout w hw

end Embeds

end Tableau

end LexSimplex
